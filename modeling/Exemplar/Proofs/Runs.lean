import Exemplar.Trace

/-!
Reasoning about computations that leave a trace. From a trace, a computation either yields a value
or breaks down with a fault, and leaves a longer trace; a sequence of computations is taken apart
into its members by the laws below, so that no later proof opens the monad.
-/

namespace Exemplar

namespace Run

variable {α β : Type} {action : Run α} {before after : Trace} {value : α} {fault : Fault}

/-- Started with one trace, the computation gives the value and leaves the other trace. -/
def Yields (action : Run α) (before : Trace) (value : α) (after : Trace) : Prop :=
  action.run.run before = (.ok value, after)

/-- Started with one trace, the computation breaks down and leaves the other trace. -/
def Breaks (action : Run α) (before : Trace) (fault : Fault) (after : Trace) : Prop :=
  action.run.run before = (.error fault, after)

theorem yields_or_breaks (action : Run α) (before : Trace) :
    (∃ value after, action.Yields before value after) ∨
      ∃ fault after, action.Breaks before fault after := by
  rcases ended : action.run.run before with ⟨value | value, after⟩
  · exact .inr ⟨value, after, ended⟩
  · exact .inl ⟨value, after, ended⟩

theorem Yields.unique {first second : α} {left right : Trace}
    (one : action.Yields before first left) (other : action.Yields before second right) :
    first = second ∧ left = right := by
  have same : (Except.ok first, left) = (Except.ok (ε := Fault) second, right) :=
    one.symm.trans other
  cases same
  exact ⟨rfl, rfl⟩

theorem Breaks.unique {first second : Fault} {left right : Trace}
    (one : action.Breaks before first left) (other : action.Breaks before second right) :
    first = second ∧ left = right := by
  have same : (Except.error (α := α) first, left) = (Except.error second, right) :=
    one.symm.trans other
  cases same
  exact ⟨rfl, rfl⟩

theorem Yields.not_breaks {left right : Trace}
    (yielded : action.Yields before value left) : ¬ action.Breaks before fault right := by
  intro broken
  have same : (Except.ok value, left) = (Except.error fault, right) := yielded.symm.trans broken
  cases same

@[simp] theorem yields_pure {result : α} :
    (pure value : Run α).Yields before result after ↔ result = value ∧ after = before := by
  constructor
  · intro ended
    cases ended
    exact ⟨rfl, rfl⟩
  · intro same
    obtain ⟨rfl, rfl⟩ := same
    rfl

@[simp] theorem breaks_pure : ¬ (pure value : Run α).Breaks before fault after := by
  intro ended
  cases ended

@[simp] theorem yields_throw {raised : Fault} :
    ¬ (throw raised : Run α).Yields before value after := by
  intro ended
  cases ended

@[simp] theorem breaks_throw {raised : Fault} :
    (throw raised : Run α).Breaks before fault after ↔ fault = raised ∧ after = before := by
  constructor
  · intro ended
    cases ended
    exact ⟨rfl, rfl⟩
  · intro same
    obtain ⟨rfl, rfl⟩ := same
    rfl

theorem Yields.bind {next : α → Run β} {middle : Trace}
    (yielded : action.Yields before value middle) :
    (action >>= next).run.run before = (next value).run.run middle := by
  have first : action.run.run before = (.ok value, middle) := yielded
  simp only [ExceptT.run_bind, StateT.run_bind, first]
  rfl

theorem Breaks.bind {next : α → Run β} (broken : action.Breaks before fault after) :
    (action >>= next).Breaks before fault after := by
  have first : action.run.run before = (.error fault, after) := broken
  simp only [Breaks, ExceptT.run_bind, StateT.run_bind, first]
  rfl

@[simp] theorem yields_bind {next : α → Run β} {result : β} :
    (action >>= next).Yields before result after ↔
      ∃ value middle, action.Yields before value middle ∧
        (next value).Yields middle result after := by
  constructor
  · intro whole
    rcases action.yields_or_breaks before with ⟨value, middle, yielded⟩ | ⟨fault, middle, broken⟩
    · exact ⟨value, middle, yielded, yielded.bind.symm.trans whole⟩
    · exact absurd broken.bind whole.not_breaks
  · intro found
    obtain ⟨value, middle, yielded, rest⟩ := found
    exact yielded.bind.trans rest

@[simp] theorem breaks_bind {next : α → Run β} :
    (action >>= next).Breaks before fault after ↔
      action.Breaks before fault after ∨
        ∃ value middle, action.Yields before value middle ∧
          (next value).Breaks middle fault after := by
  constructor
  · intro whole
    rcases action.yields_or_breaks before with ⟨value, middle, yielded⟩ | ⟨other, middle, broken⟩
    · exact .inr ⟨value, middle, yielded, yielded.bind.symm.trans whole⟩
    · obtain ⟨rfl, rfl⟩ := whole.unique broken.bind
      exact .inl broken
  · intro either
    rcases either with broken | ⟨value, middle, yielded, rest⟩
    · exact broken.bind
    · exact yielded.bind.trans rest

/-- What comes next matters for the values only that the computation can come to. -/
theorem bind_congr_yields {next other : α → Run β}
    (same : ∀ {before value after}, action.Yields before value after → next value = other value) :
    action >>= next = action >>= other := by
  apply ExceptT.ext
  funext before
  change (action >>= next).run.run before = (action >>= other).run.run before
  rcases action.yields_or_breaks before with ⟨value, after, yielded⟩ | ⟨fault, after, broke⟩
  · rw [yielded.bind, yielded.bind, same yielded]
  · exact broke.bind.trans (Eq.symm broke.bind)

@[simp] theorem yields_map {change : α → β} {result : β} :
    (change <$> action).Yields before result after ↔
      ∃ value, action.Yields before value after ∧ result = change value := by
  rw [map_eq_pure_bind, yields_bind]
  constructor
  · intro found
    obtain ⟨value, middle, yielded, changed⟩ := found
    obtain ⟨rfl, rfl⟩ := yields_pure.mp changed
    exact ⟨value, yielded, rfl⟩
  · intro found
    obtain ⟨value, yielded, rfl⟩ := found
    exact ⟨value, after, yielded, by simp⟩

@[simp] theorem yields_lift {result : Except Fault α} :
    (liftM result : Run α).Yields before value after ↔ result = .ok value ∧ after = before := by
  constructor
  · intro ended
    cases ended
    exact ⟨rfl, rfl⟩
  · intro same
    obtain ⟨rfl, rfl⟩ := same
    rfl

@[simp] theorem breaks_lift {result : Except Fault α} :
    (liftM result : Run α).Breaks before fault after ↔
      result = .error fault ∧ after = before := by
  constructor
  · intro ended
    cases ended
    exact ⟨rfl, rfl⟩
  · intro same
    obtain ⟨rfl, rfl⟩ := same
    rfl

theorem yields_of_ok {result : Except Fault α} (found : result = .ok value) :
    (liftM result : Run α).Yields before value before :=
  yields_lift.mpr ⟨found, rfl⟩

theorem breaks_of_error {result : Except Fault α} (failed : result = .error fault) :
    (liftM result : Run α).Breaks before fault before :=
  breaks_lift.mpr ⟨failed, rfl⟩

@[simp] theorem yields_outcome {result : Except Fault α} :
    action.outcome.Yields before result after ↔
      (∃ value, result = .ok value ∧ action.Yields before value after) ∨
        ∃ fault, result = .error fault ∧ action.Breaks before fault after := by
  have taken {ending : Except Fault α} {last : Trace}
      (ended : action.run.run before = (ending, last)) :
      action.outcome.Yields before ending last := by
    have opened : action.outcome.run.run before =
        (.ok (action.run.run before).1, (action.run.run before).2) := rfl
    rw [Yields, opened, ended]
  constructor
  · intro yielded
    rcases action.yields_or_breaks before with ⟨value, middle, ended⟩ | ⟨fault, middle, ended⟩
    · obtain ⟨rfl, rfl⟩ := yielded.unique (taken ended)
      exact .inl ⟨value, rfl, ended⟩
    · obtain ⟨rfl, rfl⟩ := yielded.unique (taken ended)
      exact .inr ⟨fault, rfl, ended⟩
  · intro either
    rcases either with ⟨value, rfl, ended⟩ | ⟨fault, rfl, ended⟩
    · exact taken ended
    · exact taken ended

@[simp] theorem breaks_outcome : ¬ action.outcome.Breaks before fault after := by
  intro ended
  cases ended

@[simp] theorem yields_record {event : Event} {done : Unit} :
    (record event).Yields before done after ↔ after = before ++ [event] := by
  constructor
  · intro ended
    cases ended
    rfl
  · intro same
    subst same
    rfl

@[simp] theorem breaks_record {event : Event} : ¬ (record event).Breaks before fault after := by
  intro ended
  cases ended

section Always

/-- From every trace the computation yields a value, and the value is as required. -/
def Always (action : Run α) (required : α → Prop) : Prop :=
  ∀ before, ∃ value after, action.Yields before value after ∧ required value

variable {required weaker : α → Prop} {promised : β → Prop}

theorem always_pure (meets : required value) : (pure value : Run α).Always required :=
  fun before => ⟨value, before, yields_pure.mpr ⟨rfl, rfl⟩, meets⟩

theorem always_lift {result : Except Fault α} (found : result = .ok value) :
    (liftM result : Run α).Always (· = value) :=
  fun before => ⟨value, before, yields_of_ok found, rfl⟩

theorem Always.mono (always : action.Always required)
    (implies : ∀ value, required value → weaker value) : action.Always weaker := by
  intro before
  obtain ⟨value, after, yielded, meets⟩ := always before
  exact ⟨value, after, yielded, implies value meets⟩

/-- What follows can make use of where the value comes from. -/
theorem Always.reached (always : action.Always required) :
    action.Always fun value => required value ∧ ∃ before after, action.Yields before value after := by
  intro before
  obtain ⟨value, after, yielded, meets⟩ := always before
  exact ⟨value, after, yielded, meets, before, after, yielded⟩

theorem Always.bind {next : α → Run β} (always : action.Always required)
    (rest : ∀ value, required value → (next value).Always promised) :
    (action >>= next).Always promised := by
  intro before
  obtain ⟨value, middle, yielded, meets⟩ := always before
  obtain ⟨result, after, ended, promised⟩ := rest value meets middle
  exact ⟨result, after, yielded.bind.trans ended, promised⟩

/-- With a value that is known, it is the rest that counts. -/
theorem Always.follow {next : α → Run β} (always : action.Always (· = value))
    (rest : (next value).Always promised) : (action >>= next).Always promised :=
  always.bind fun _ same => same ▸ rest

theorem Always.of_yields (always : action.Always required)
    (yielded : action.Yields before value after) : required value := by
  obtain ⟨other, last, ended, meets⟩ := always before
  obtain ⟨rfl, _⟩ := yielded.unique ended
  exact meets

theorem Always.not_breaks (always : action.Always required) :
    ¬ action.Breaks before fault after := by
  obtain ⟨value, last, ended, _⟩ := always before
  exact ended.not_breaks

end Always

section Gives

/-- From every trace the computation yields the value, and what it adds to the trace are such
events only. -/
def Gives (events : Event → Prop) (action : Run α) (value : α) : Prop :=
  ∀ before, ∃ added, action.Yields before value (before ++ added) ∧ ∀ event ∈ added, events event

variable {events : Event → Prop}

theorem gives_of_yields (yields : ∀ trace, action.Yields trace value trace) :
    action.Gives events value :=
  fun before => ⟨[], by rw [List.append_nil]; exact yields before, by simp⟩

theorem Gives.bind {next : α → Run β} {result : β} (first : action.Gives events value)
    (rest : (next value).Gives events result) : (action >>= next).Gives events result := by
  intro before
  obtain ⟨early, yielded, some⟩ := first before
  obtain ⟨late, ended, others⟩ := rest (before ++ early)
  refine ⟨early ++ late, ?_, ?_⟩
  · rw [← List.append_assoc]
    exact yielded.bind.trans ended
  · intro event member
    exact (List.mem_append.mp member).elim (some event) (others event)

/-- A computation that may add no event leaves the trace as it is. -/
theorem Gives.untouched (gives : action.Gives (fun _ => False) value) (trace : Trace) :
    action.Yields trace value trace := by
  obtain ⟨added, yielded, none⟩ := gives trace
  rwa [List.eq_nil_iff_forall_not_mem.mpr none, List.append_nil] at yielded

end Gives

end Run

end Exemplar
