import Exemplar.Proofs.Texts

/-!
What goes wrong with operations on values. A failure of validation is raised as a fault where a
record is demanded and there is none. Nothing that goes through values, or compares, hashes, copies
or writes them, demands a record, so no fault of theirs is such a failure.
-/

namespace Exemplar

namespace Heap

variable {heap : Heap} {value : Value} {fault : Fault}

theorem iterate_ne_rejected (fail : Failure) : heap.iterate value ≠ .error (.rejected fail) := by
  unfold iterate
  split <;> nofun

theorem numeral_ne_rejected {whole : Int} (fail : Failure) :
    numeral whole ≠ .error (.rejected fail) :=
  fun failed => nomatch fault_of_numeral failed

theorem literal_ne_rejected (fail : Failure) : heap.literal value ≠ .error (.rejected fail) := by
  intro failed
  rcases fault_of_literal failed with deep | long
  · cases deep
  · cases long

theorem display_ne_rejected (fail : Failure) : heap.display value ≠ .error (.rejected fail) := by
  unfold display
  split
  case h_2 => exact numeral_ne_rejected fail
  case h_6 => exact literal_ne_rejected fail
  all_goals nofun

theorem deepCopy_ne_rejected (fail : Failure) : heap.deepCopy value ≠ .error (.rejected fail) := by
  unfold deepCopy
  split <;> nofun

section Hashing

variable {hash : Value → Except Fault Nat} {values members : List Value}

theorem fault_of_hashAll (failed : hashAll hash values = .error fault) :
    ∃ value, hash value = .error fault := by
  induction values with
  | nil => cases failed
  | cons value rest ih =>
      simp only [hashAll] at failed
      split at failed
      next first =>
        cases failed
        exact ⟨value, first⟩
      next =>
        split at failed
        next others =>
          cases failed
          exact ih others
        next => cases failed

theorem hashTo_ne_rejected {fuel : Nat} (fail : Failure) :
    heap.hashTo fuel value ≠ .error (.rejected fail) := by
  induction fuel generalizing value with
  | zero => nofun
  | succ fuel ih =>
      intro failed
      have all {values : List Value} :
          hashAll (heap.hashTo fuel) values ≠ .error (.rejected fail) := fun failed => by
        obtain ⟨part, inside⟩ := fault_of_hashAll failed
        exact ih inside
      rw [hashTo] at failed
      split at failed
      case h_8 | h_9 =>
        split at failed
        · cases failed
        · next hashed =>
            cases failed
            exact all hashed
      case h_10 => split at failed <;> cases failed
      all_goals cases failed

theorem addMember_ne_rejected (fail : Failure) :
    heap.addMember members value ≠ .error (.rejected fail) := by
  intro failed
  unfold addMember at failed
  split at failed
  next hashed =>
    cases failed
    exact hashTo_ne_rejected fail hashed
  next => cases failed

end Hashing

section Orders

variable {equal : Comparison} {order : Value → Value → Except Fault Bool} {side : Side}
  {lefts rights : List Value} {left right : Value}

theorem orderAll_ne_rejected (fail : Failure)
    (each : ∀ left right, order left right ≠ .error (.rejected fail)) :
    orderAll equal order side lefts rights ≠ .error (.rejected fail) := by
  induction lefts generalizing rights with
  | nil => cases rights <;> nofun
  | cons left lefts ih =>
      cases rights with
      | nil => nofun
      | cons right rights =>
          simp only [orderAll]
          split
          · nofun
          · exact ih
          · exact each left right

theorem properlyWithin_ne_rejected (fail : Failure) :
    properlyWithin equal lefts rights ≠ .error (.rejected fail) := by
  unfold properlyWithin
  split
  · split <;> nofun
  · nofun

theorem orderTo_ne_rejected {fuel : Nat} (fail : Failure) :
    heap.orderTo side fuel left right ≠ .error (.rejected fail) := by
  induction fuel generalizing left right with
  | zero => nofun
  | succ fuel ih =>
      rw [orderTo]
      split
      case h_4 | h_5 | h_6 => exact orderAll_ne_rejected fail fun _ _ => ih
      case h_7 | h_8 | h_9 | h_10 => cases side <;> exact properlyWithin_ne_rejected fail
      case h_11 => split <;> nofun
      all_goals nofun

end Orders

theorem toInteger_ne_rejected (fail : Failure) : heap.toInteger value ≠ .error (.rejected fail) := by
  unfold toInteger
  split
  case h_7 =>
    unfold integerOfText
    split <;> nofun
  case h_8 =>
    unfold integerOfBytes
    split
    · split <;> nofun
    · nofun
  all_goals nofun

theorem integer_ne_rejected {α : Type} {change : Int → α} (fail : Failure) :
    (heap.toInteger value).map change ≠ .error (.rejected fail) :=
  fun failed => toInteger_ne_rejected fail (map_error.mp failed)

end Heap

variable {heap : Heap} {value : Value} {path : String}

theorem Primitive.standIn_ne_rejected (fail : Failure) :
    Primitive.standIn heap value ≠ .error (.rejected fail) := by
  unfold Primitive.standIn
  split
  case h_5 => nofun
  all_goals exact Heap.deepCopy_ne_rejected fail

theorem BigInteger.compared_ne_rejected (fail : Failure) :
    BigInteger.compared heap value ≠ .error (.rejected fail) := by
  unfold BigInteger.compared
  split
  · split
    · exact Heap.integer_ne_rejected fail
    · nofun
  · exact Heap.integer_ne_rejected fail

theorem BigInteger.parse_ne_rejected (fail : Failure) :
    BigInteger.parse heap path value ≠ .error (.rejected fail) := by
  unfold BigInteger.parse
  split
  · split
    · exact Heap.integer_ne_rejected fail
    · nofun
  · exact Heap.integer_ne_rejected fail

theorem Schema.demandCompiled_ne_rejected {schema : Schema} (fail : Failure) :
    schema.demandCompiled ≠ .error (.rejected fail) := by
  unfold Schema.demandCompiled
  split <;> nofun

end Exemplar
