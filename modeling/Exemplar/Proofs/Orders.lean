import Exemplar.Proofs.Agreement

/-!
The order of values goes round in no circles. Where one value comes before another one, which comes
before a third or is equal to it, the third does not come before the first. Of numbers, texts and
dates that is plain, of sets their sizes tell it, and of rows the first place at which two of the
three differ. Numbers that are none and values that contain themselves make no exception: an order
that is found has been found at places where none of these stands.
-/

namespace Exemplar

/-- Steps, each of which goes forward or stays, do not lead forward and back again in three. -/
def Circular {α : Type} (step : Bool → α → α → Prop) : Prop :=
  ∃ one other third second last, step true one other ∧ step second other third ∧
    step last third one

/-- The first place is further down the line. -/
def Spot.Below : Spot → Spot → Prop
  | .at one, .at other => one < other
  | .bottom, .bottom => False
  | .bottom, _ => True
  | _, .bottom => False
  | .top, _ => False
  | _, .top => True

theorem Spot.Below.irrefl {spot : Spot} : ¬ spot.Below spot := by
  cases spot <;> simp [Below]

theorem Spot.Below.trans {one other third : Spot} (first : one.Below other)
    (second : other.Below third) : one.Below third := by
  cases one <;> cases other <;> cases third <;> simp_all [Below]
  exact first.trans second

theorem Number.Binary64.Point.less_iff {left right : Number.Binary64.Point} :
    left.less right = true ↔ left.spot.Below right.spot := by
  cases left <;> cases right <;> simp [less, spot, Spot.Below, Number.Dyadic.less_iff]

theorem Quantity.less_iff {left right : Quantity} :
    left.less right = true ↔
      ∃ one other, left.spot? = some one ∧ right.spot? = some other ∧ one.Below other := by
  cases left with
  | nan => simp [less, spot?]
  | point first =>
      cases right with
      | nan => simp [less, spot?]
      | point second => simp [less, spot?, Number.Binary64.Point.less_iff]

theorem Value.layout?_of_spot {value : Value} {quantity : Quantity} {spot : Spot}
    (counts : value.quantity? = some quantity) (placed : quantity.spot? = some spot) :
    value.layout? = some (.atom (.number spot)) :=
  layout?_of_atom (by rw [atom?_of_quantity counts, placed]; rfl)

theorem Date.less_iff {left right : Date} :
    left.less right = true ↔ left.year < right.year ∨ left.year = right.year ∧
      (left.month < right.month ∨ left.month = right.month ∧ left.day < right.day) := by
  unfold less
  split
  next differ => simp [differ]
  next alike =>
    rw [not_ne_iff] at alike
    split
    next differ => simp [alike, differ]
    next same => simp [alike, not_ne_iff.mp same]

theorem Heap.bytesLess_iff {left right : List UInt8} :
    bytesLess left right = true ↔ left < right := by
  induction left generalizing right with
  | nil => cases right <;> simp [bytesLess]
  | cons byte rest ih =>
      cases right with
      | nil => simp [bytesLess]
      | cons other others =>
          rw [bytesLess, List.cons_lt_cons_iff]
          split
          next same => simp [same, ih]
          next differ => simp [differ]

/-- One content comes before the other. -/
inductive Atom.Below : Atom → Atom → Prop
  | number {one other : Spot} : one.Below other → Below (.number one) (.number other)
  | text {one other : String} : one < other → Below (.text one) (.text other)
  | bytes {one other : List UInt8} : one < other → Below (.bytes one) (.bytes other)
  | date {one other : Date} : one.less other = true → Below (.date one) (.date other)

theorem Atom.Below.irrefl {content : Atom} : ¬ content.Below content := by
  rintro (below | below | below | below)
  · exact Spot.Below.irrefl below
  · exact String.lt_irrefl _ below
  · exact List.lt_irrefl _ below
  · have := Date.less_iff.mp below
    omega

theorem Atom.Below.trans {one other third : Atom} (first : one.Below other)
    (second : other.Below third) : one.Below third := by
  cases first with
  | number first =>
      cases second with
      | number second => exact .number (first.trans second)
  | text first =>
      cases second with
      | text second => exact .text (String.lt_trans first second)
  | bytes first =>
      cases second with
      | bytes second => exact .bytes (List.lt_trans first second)
  | date first =>
      cases second with
      | date second =>
          have one := Date.less_iff.mp first
          have other := Date.less_iff.mp second
          exact .date (Date.less_iff.mpr (by omega))

/-- A step from row to row: element by element the rows stay, up to the first place, if there is
one, where a step goes forward or the first row ends. -/
inductive Along (step : Bool → Value → Value → Prop) : Bool → List Value → List Value → Prop
  | nil : Along step false [] []
  | ends {value rest} : Along step true [] (value :: rest)
  | differ {left right lefts rights} : step true left right →
      Along step true (left :: lefts) (right :: rights)
  | same {strict left right lefts rights} : step false left right →
      Along step strict lefts rights → Along step strict (left :: lefts) (right :: rights)

/-- A step from layout to layout, which goes forward in the order of contents, of rows and of
sizes. Mappings and records have no order. -/
inductive Layout.Step (step : Bool → Value → Value → Prop) : Bool → Layout → Layout → Prop
  | atom {content} : Step step false (.atom content) (.atom content)
  | below {one other : Atom} : one.Below other → Step step true (.atom one) (.atom other)
  | row {strict kind lefts rights} : Along step strict lefts rights →
      Step step strict (.row kind lefts) (.row kind rights)
  | fewer {lefts rights : List Value} : lefts.length < rights.length →
      Step step true (.members lefts) (.members rights)
  | asMany {lefts rights : List Value} : lefts.length = rights.length →
      Step step false (.members lefts) (.members rights)
  | entries {lefts rights} : Step step false (.entries lefts) (.entries rights)
  | fields {number lefts rights} : Step step false (.fields number lefts) (.fields number rights)

/-- The first stands on this side of the second. -/
def Side.Puts {α : Type} (side : Side) (before : α → α → Prop) (one other : α) : Prop :=
  match side with
  | .below => before one other
  | .above => before other one

theorem Side.ask_iff {α : Type} {side : Side} {less : α → α → Bool} {one other : α} :
    side.ask less one other = true ↔
      side.Puts (fun first second => less first second = true) one other := by
  cases side <;> rfl

section Steps

variable {step : Bool → Value → Value → Prop} {lefts rights : List Value}

theorem Along.of_forall₂ (each : List.Forall₂ (step false) lefts rights) :
    Along step false lefts rights := by
  induction each with
  | nil => exact .nil
  | cons same _ ih => exact .same same ih

theorem Along.symm (symmetric : ∀ one other, step false one other → step false other one)
    (same : Along step false lefts rights) : Along step false rights lefts := by
  generalize stays : false = strict at same
  induction same with
  | nil => exact .nil
  | ends | differ _ => cases stays
  | same head _ ih =>
      subst stays
      exact .same (symmetric _ _ head) (ih rfl)

theorem Along.not_circular (open_ : ¬ Circular step) : ¬ Circular (Along step) := by
  rintro ⟨lefts, rights, thirds, second, last, first, middle, back⟩
  induction lefts generalizing rights thirds with
  | nil =>
      cases first
      cases back
      cases middle
  | cons left lefts ih =>
      cases first with
      | differ forward =>
          -- The rows part at their heads, and the heads do not lead back.
          cases middle with
          | differ other =>
              cases back with
              | differ third => exact open_ ⟨_, _, _, _, _, forward, other, third⟩
              | same third _ => exact open_ ⟨_, _, _, _, _, forward, other, third⟩
          | same other _ =>
              cases back with
              | differ third => exact open_ ⟨_, _, _, _, _, forward, other, third⟩
              | same third _ => exact open_ ⟨_, _, _, _, _, forward, other, third⟩
      | same stays first =>
          cases middle with
          | differ other =>
              cases back with
              | differ third => exact open_ ⟨_, _, _, _, _, other, third, stays⟩
              | same third _ => exact open_ ⟨_, _, _, _, _, other, third, stays⟩
          | same other middle =>
              cases back with
              | differ third => exact open_ ⟨_, _, _, _, _, third, stays, other⟩
              | same third back => exact ih _ _ first middle back

theorem Layout.Step.symm {one other : Layout}
    (symmetric : ∀ one other, step false one other → step false other one)
    (same : Layout.Step step false one other) : Layout.Step step false other one := by
  cases same with
  | atom => exact .atom
  | row along => exact .row (along.symm symmetric)
  | asMany count => exact .asMany count.symm
  | entries => exact .entries
  | fields => exact .fields

theorem Layout.Step.refl (reflexive : ∀ value, step false value value) (layout : Layout) :
    Layout.Step step false layout layout := by
  cases layout with
  | atom content => exact .atom
  | row kind values =>
      exact .row (.of_forall₂ (List.forall₂_same.mpr fun value _ => reflexive value))
  | members values => exact .asMany rfl
  | entries pairs => exact .entries
  | fields number named => exact .fields

theorem Layout.Step.not_circular (open_ : ¬ Circular step) : ¬ Circular (Layout.Step step) := by
  rintro ⟨one, other, third, second, last, first, middle, back⟩
  cases first with
  | below forward =>
      cases middle with
      | atom =>
          cases back with
          | atom => exact forward.irrefl
          | below again => exact (forward.trans again).irrefl
      | below further =>
          cases back with
          | atom => exact (forward.trans further).irrefl
          | below again => exact ((forward.trans further).trans again).irrefl
  | row forward =>
      cases middle with
      | row further =>
          cases back with
          | row again => exact Along.not_circular open_ ⟨_, _, _, _, _, forward, further, again⟩
  | fewer forward =>
      cases middle with
      | fewer further | asMany further =>
          cases back with
          | fewer again | asMany again => omega

end Steps

namespace Heap

section Shapes

variable {equal : Comparison} {step : Bool → Value → Value → Prop} {left right : Value}

/-- Shapes that the test finds equal are laid out alike. -/
theorem step_of_equalShapes
    (stays : ∀ one other, equal one other = some true → step false one other)
    (same : equalShapes equal left right = some true) :
    ∃ one other, left.layout? = some one ∧ right.layout? = some other ∧
      Layout.Step step false one other := by
  have row {kind : Row} {lefts rights : List Value} (one : left.layout? = some (.row kind lefts))
      (other : right.layout? = some (.row kind rights))
      (all : equalAll equal lefts rights = some true) :
      ∃ one other, left.layout? = some one ∧ right.layout? = some other ∧
        Layout.Step step false one other :=
    ⟨_, _, one, other, .row (.of_forall₂ ((equalAll_iff.mp all).imp stays))⟩
  have members {lefts rights : List Value} (one : left.layout? = some (.members lefts))
      (other : right.layout? = some (.members rights))
      (counted : (if lefts.length = rights.length then equalWithin equal lefts rights
        else some false) = some true) :
      ∃ one other, left.layout? = some one ∧ right.layout? = some other ∧
        Layout.Step step false one other := by
    split at counted
    next count => exact ⟨_, _, one, other, .asMany count⟩
    next => cases counted
  have atom {content : Atom} (one : left.atom? = some content)
      (other : right.atom? = some content) :
      ∃ one other, left.layout? = some one ∧ right.layout? = some other ∧
        Layout.Step step false one other :=
    ⟨_, _, Value.layout?_of_atom one, Value.layout?_of_atom other, .atom⟩
  unfold equalShapes at same
  split at same
  case h_1 => exact atom rfl rfl
  case h_2 | h_3 | h_4 | h_5 | h_7 =>
    obtain rfl := eq_of_beq (Option.some.inj same)
    exact atom rfl rfl
  case h_6 first second =>
    simp only [Option.some.injEq, Bool.and_eq_true, beq_iff_eq] at same
    exact atom rfl (by simp only [Value.atom?, same])
  case h_8 | h_9 | h_10 => exact row rfl rfl same
  case h_11 | h_12 | h_13 | h_14 => exact members rfl rfl same
  case h_15 => exact ⟨_, _, rfl, rfl, .entries⟩
  case h_16 upper lefts lower rights =>
    split at same
    next counted => exact ⟨_, _, rfl, by rw [Value.layout?, ← counted.1], .fields⟩
    next => cases same
  case h_17 =>
    split at same
    next first second one other =>
      obtain ⟨spot, here, there⟩ := Quantity.same_iff.mp (Option.some.inj same)
      exact ⟨_, _, Value.layout?_of_spot one here, Value.layout?_of_spot other there, .atom⟩
    next => cases same

/-- Rows that the test orders are alike up to the place where it has found a difference. -/
theorem along_of_orderAll {order : Value → Value → Except Fault Bool} {side : Side}
    {lefts rights : List Value}
    (stays : ∀ one other, equal one other = some true → side.Puts (step false) one other)
    (moves : ∀ one other, order one other = .ok true → side.Puts (step true) one other)
    (ordered : orderAll equal order side lefts rights = .ok true) :
    side.Puts (Along step true) lefts rights := by
  induction lefts generalizing rights with
  | nil =>
      cases rights with
      | nil => cases ordered
      | cons right rights =>
          cases side with
          | below => exact .ends
          | above => cases ordered
  | cons left lefts ih =>
      cases rights with
      | nil =>
          cases side with
          | below => cases ordered
          | above => exact .ends
      | cons right rights =>
          unfold orderAll at ordered
          split at ordered
          next => cases ordered
          next same =>
            have head := stays _ _ same
            have tail := ih ordered
            cases side with
            | below => exact .same head tail
            | above => exact .same head tail
          next =>
            have head := moves _ _ ordered
            cases side with
            | below => exact .differ head
            | above => exact .differ head

theorem length_lt_of_properlyWithin {lefts rights : List Value}
    (within : properlyWithin equal lefts rights = .ok true) : lefts.length < rights.length := by
  unfold properlyWithin at within
  split at within
  next fewer => exact fewer
  next => cases within

/-- Of shapes that the test orders the one that is put first comes first. -/
theorem step_of_orderTo {heap : Heap} {side : Side} {fuel : Nat}
    (stays : ∀ one other, heap.equalTo fuel one other = some true →
      side.Puts (step false) one other)
    (moves : ∀ one other, heap.orderTo side fuel one other = .ok true →
      side.Puts (step true) one other)
    (ordered : heap.orderTo side (fuel + 1) left right = .ok true) :
    ∃ one other, (heap.look left).layout? = some one ∧ (heap.look right).layout? = some other ∧
      side.Puts (Layout.Step step true) one other := by
  have row (kind : Row) {lefts rights : List Value}
      (ordered : orderAll (heap.equalTo fuel) (heap.orderTo side fuel) side lefts rights =
        .ok true) :
      side.Puts (Layout.Step step true) (.row kind lefts) (.row kind rights) := by
    have along := along_of_orderAll stays moves ordered
    cases side with
    | below => exact .row along
    | above => exact .row along
  have members {lefts rights : List Value}
      (ordered : (match side with
        | .below => properlyWithin (heap.equalTo fuel) lefts rights
        | .above => properlyWithin (heap.equalTo fuel) rights lefts) = .ok true) :
      side.Puts (Layout.Step step true) (.members lefts) (.members rights) := by
    cases side with
    | below => exact .fewer (length_lt_of_properlyWithin ordered)
    | above => exact .fewer (length_lt_of_properlyWithin ordered)
  have atoms {α : Type} {less : α → α → Bool} {first second : α} (content : α → Atom)
      (tells : ∀ one other, less one other = true → (content one).Below (content other))
      (asked : (Except.ok (side.ask less first second) : Except Fault Bool) = .ok true) :
      side.Puts (Layout.Step step true) (.atom (content first)) (.atom (content second)) := by
    have less := Except.ok.inj asked
    cases side with
    | below => exact .below (tells _ _ less)
    | above => exact .below (tells _ _ less)
  unfold orderTo at ordered
  split at ordered
  case h_1 first second one other =>
    refine ⟨_, _, congrArg _ one, congrArg _ other, ?_⟩
    exact atoms .text (fun _ _ less => .text (of_decide_eq_true less)) ordered
  case h_2 first second one other =>
    refine ⟨_, _, congrArg _ one, congrArg _ other, ?_⟩
    exact atoms .bytes (fun _ _ less => .bytes (bytesLess_iff.mp less)) ordered
  case h_3 first second one other =>
    refine ⟨_, _, congrArg _ one, congrArg _ other, ?_⟩
    exact atoms .date (fun _ _ less => .date less) ordered
  case h_4 | h_5 | h_6 =>
    rename_i first second one other
    exact ⟨_, _, congrArg _ one, congrArg _ other, row _ ordered⟩
  case h_7 | h_8 | h_9 | h_10 =>
    rename_i first second one other
    exact ⟨_, _, congrArg _ one, congrArg _ other, members ordered⟩
  case h_11 =>
    split at ordered
    next low high one other =>
      have less := Side.ask_iff.mp (Except.ok.inj ordered)
      cases side with
      | below =>
          obtain ⟨_, _, here, there, less⟩ := Quantity.less_iff.mp less
          exact ⟨_, _, Value.layout?_of_spot one here, Value.layout?_of_spot other there,
            .below (.number less)⟩
      | above =>
          obtain ⟨_, _, there, here, less⟩ := Quantity.less_iff.mp less
          exact ⟨_, _, Value.layout?_of_spot one here, Value.layout?_of_spot other there,
            .below (.number less)⟩
    next => cases ordered

end Shapes

/-- A step that the tests have found: it stays where they find the values equal, and goes forward
where they find an order without looking too deep. -/
inductive Step (heap : Heap) (depth : Nat) : Bool → Value → Value → Prop
  | itself {value} : Step heap depth false value value
  | equal {fuel left right} : heap.equalTo fuel left right = some true →
      Step heap depth false left right
  | turned {fuel left right} : heap.equalTo fuel right left = some true →
      Step heap depth false left right
  | below {fuel left right} : fuel < depth → heap.orderTo .below fuel left right = .ok true →
      Step heap depth true left right
  | above {fuel left right} : fuel < depth → heap.orderTo .above fuel right left = .ok true →
      Step heap depth true left right

section Steps

variable {heap : Heap} {depth fuel : Nat} {strict : Bool} {left right value least most : Value}

theorem Step.symm (same : heap.Step depth false left right) :
    heap.Step depth false right left := by
  cases same with
  | itself => exact .itself
  | equal same => exact .turned same
  | turned same => exact .equal same

theorem Step.puts (side : Side) (same : heap.Step depth false left right) :
    side.Puts (heap.Step depth false) left right := by
  cases side with
  | below => exact same
  | above => exact same.symm

theorem layouts_of_equalTo (same : heap.equalTo fuel left right = some true) : left = right ∨
    ∃ one other, (heap.look left).layout? = some one ∧ (heap.look right).layout? = some other ∧
      Layout.Step (heap.Step depth) false one other := by
  cases fuel with
  | zero => cases same
  | succ fuel =>
      unfold equalTo at same
      split at same
      next shared => exact .inl (Value.eq_of_sameObject shared)
      next => exact .inr (step_of_equalShapes (fun _ _ => .equal) same)

theorem layouts_of_orderTo {side : Side} (near : fuel < depth + 1)
    (ordered : heap.orderTo side fuel left right = .ok true) :
    ∃ one other, (heap.look left).layout? = some one ∧ (heap.look right).layout? = some other ∧
      side.Puts (Layout.Step (heap.Step depth) true) one other := by
  cases fuel with
  | zero => cases ordered
  | succ fuel =>
      refine step_of_orderTo (fun _ _ same => Step.puts side (.equal same))
        (fun _ _ ordered => ?_) ordered
      have close : fuel < depth := Nat.lt_of_succ_lt_succ near
      cases side with
      | below => exact .below close ordered
      | above => exact .above close ordered

/-- A step from a value to another one goes from layout to layout, by steps that look less deep. -/
theorem Step.layouts {one : Layout} (steps : heap.Step (depth + 1) strict left right)
    (laid : (heap.look left).layout? = some one) :
    ∃ other, (heap.look right).layout? = some other ∧
      Layout.Step (heap.Step depth) strict one other := by
  have symmetric (one other : Value) : heap.Step depth false one other →
      heap.Step depth false other one := Step.symm
  have still : Layout.Step (heap.Step depth) false one one := .refl (fun _ => .itself) one
  cases steps with
  | itself => exact ⟨one, laid, still⟩
  | equal same =>
      rcases layouts_of_equalTo same with rfl | ⟨first, other, here, there, step⟩
      · exact ⟨one, laid, still⟩
      · cases laid.symm.trans here
        exact ⟨other, there, step⟩
  | turned same =>
      rcases layouts_of_equalTo same with rfl | ⟨other, first, there, here, step⟩
      · exact ⟨one, laid, still⟩
      · cases laid.symm.trans here
        exact ⟨other, there, step.symm symmetric⟩
  | below near ordered =>
      obtain ⟨first, other, here, there, step⟩ := layouts_of_orderTo near ordered
      cases laid.symm.trans here
      exact ⟨other, there, step⟩
  | above near ordered =>
      obtain ⟨other, first, there, here, step⟩ := layouts_of_orderTo near ordered
      cases laid.symm.trans here
      exact ⟨other, there, step⟩

theorem Step.exists_layout (forward : heap.Step (depth + 1) true left right) :
    ∃ layout, (heap.look left).layout? = some layout := by
  cases forward with
  | below near ordered =>
      obtain ⟨one, _, laid, _⟩ := layouts_of_orderTo near ordered
      exact ⟨one, laid⟩
  | above near ordered =>
      obtain ⟨_, one, _, laid, _⟩ := layouts_of_orderTo near ordered
      exact ⟨one, laid⟩

theorem Step.not_circular (heap : Heap) (depth : Nat) : ¬ Circular (heap.Step depth) := by
  induction depth with
  | zero =>
      rintro ⟨_, _, _, _, _, first, _⟩
      cases first with
      | below near _ | above near _ => exact absurd near (Nat.not_lt_zero _)
  | succ depth ih =>
      rintro ⟨left, right, third, second, last, first, middle, back⟩
      obtain ⟨one, here⟩ := first.exists_layout
      obtain ⟨other, there, first⟩ := first.layouts here
      obtain ⟨beyond, far, middle⟩ := middle.layouts there
      obtain ⟨again, same, back⟩ := back.layouts far
      cases here.symm.trans same
      exact Layout.Step.not_circular ih ⟨_, _, _, _, _, first, middle, back⟩

/-- A value that comes before the least one does not come after the greatest one, if the least one
comes before the greatest or is equal to it. -/
theorem not_above_of_below (below : heap.order .below value least = .ok true)
    (apart : heap.order .below least most = .ok true ∨ heap.equal least most = true) :
    heap.order .above value most ≠ .ok true := by
  intro above
  obtain ⟨depth, near⟩ : ∃ depth, heap.reach value + heap.reach least + heap.reach most < depth :=
    ⟨_, Nat.lt_succ_self _⟩
  have first : heap.Step depth true value least := .below (by omega) below
  have last : heap.Step depth true most value := .above (by omega) above
  rcases apart with ordered | same
  · have middle : heap.Step depth true least most := .below (by omega) ordered
    exact Step.not_circular heap depth ⟨_, _, _, _, _, first, middle, last⟩
  · obtain ⟨fuel, same⟩ := equalTo_of_equal same
    exact Step.not_circular heap depth ⟨_, _, _, _, _, first, .equal same, last⟩

end Steps

end Heap

end Exemplar
