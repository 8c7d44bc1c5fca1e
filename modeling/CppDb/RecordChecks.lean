import CppDb.OperationCodec

/-!
# What the compile-time checks of a record enforce

`checkAssertions` walks over neighbouring fields. Two of the things it states hold of the whole list, since "static
size first" is transitive and the count of a type looks at the whole list anyway (`StaticFirst.static_iff_lt`,
`nodup_of_checkAssertions`); that all IDs are different does not follow (`checkAssertions_enforces_iff`).
-/

namespace CppDb
open Embed

/-! ### Lookups by ID -/

/-- The fields with the ID, for which the lookup loops of `deserialize` run their bodies. -/
def Schema.selected (S : Schema) (fieldId : UInt8) : List Field := S.filter fun f => f.id = fieldId.toNat

namespace Serializer
variable {σ : Type} {S : Schema}

theorem forMatchingFields_filter (isMatch : Field → Bool) (body : Field → Bool → Proc σ Bool) (fields : List Field) :
    forMatchingFields isMatch body fields = forMatchingFields (fun _ => true) body (fields.filter isMatch) := by
  unfold forMatchingFields
  rw [List.foldlM_filter]
  simp

theorem forMatchingFields_selected (fieldId : UInt8) (body : Field → Bool → Proc σ Bool) :
    forMatchingFields (fun f => f.id = fieldId.toNat) body S =
      forMatchingFields (fun _ => true) body (S.selected fieldId) :=
  forMatchingFields_filter _ body S

theorem forM_filter (isMatch : Field → Bool) (k : Field → Proc σ Unit) (fields : List Field) :
    (fields.forM fun f => if isMatch f then k f else pure ()) = (fields.filter isMatch).forM k := by
  induction fields with
  | nil => rfl
  | cons f fields ih =>
    by_cases hf : isMatch f = true
    · rw [List.filter_cons_of_pos hf, List.forM, List.forM, if_pos hf, ih]
    · rw [List.filter_cons_of_neg hf, List.forM, if_neg hf, ih]
      rfl

theorem constructFindOperationType_selected (receiver : List Field → Proc σ Unit) (fieldIds : List UInt8)
    (nFieldIds remaining : ℕ) (typesPack : List Field) :
    constructFindOperationType S receiver fieldIds nFieldIds (remaining + 1) typesPack =
      (S.selected (fieldIds.getD typesPack.length 0)).forM fun type =>
        if typesPack.length + 1 = nFieldIds then receiver (typesPack ++ [type])
        else constructFindOperationType S receiver fieldIds nFieldIds remaining (typesPack ++ [type]) := by
  rw [constructFindOperationType, Schema.selected, ← forM_filter]
  simp

end Serializer

namespace Schema
variable {S : Schema}

/-- What the messages of `checkAssertions` say about the fields, and what the decoder makes of it. -/
structure Enforced (S : Schema) : Prop where
  ids : S.Pairwise fun f g => f.id ≠ g.id
  types : S.Pairwise (· ≠ ·)
  static : ∀ i (hi : i < S.length), S[i].sizeKnownAtCompileTime = true ↔ i < S.staticFieldsCount
  selects : ∀ fieldId, (S.selected fieldId).length ≤ 1

/-- "All the fields with compile-time size must be grouped before fields with dynamic size." -/
theorem StaticFirst.static_iff_lt (h : S.StaticFirst) {i : ℕ} (hi : i < S.length) :
    S[i].sizeKnownAtCompileTime = true ↔ i < S.staticFieldsCount := by
  induction S generalizing i with
  | nil => exact absurd hi (Nat.not_lt_zero i)
  | cons f S ih =>
    by_cases hf : f.sizeKnownAtCompileTime = true
    · rw [staticFieldsCount_static hf]
      cases i with
      | zero => simp [hf]
      | succ i => simpa using ih h.tail (Nat.lt_of_succ_lt_succ hi)
    · rw [staticFieldsCount_dynamic hf, h.count_eq_zero hf]
      cases i with
      | zero => simp [hf]
      | succ i =>
        have hstatic := ih h.tail (Nat.lt_of_succ_lt_succ hi)
        rw [h.count_eq_zero hf] at hstatic
        simpa using hstatic

theorem length_selected_le (h : S.Pairwise fun f g => f.id ≠ g.id) (fieldId : UInt8) :
    (S.selected fieldId).length ≤ 1 := by
  have hsel : (S.selected fieldId).Pairwise fun f g => f.id ≠ g.id := h.filter _
  match hm : S.selected fieldId with
  | [] => simp
  | [_] => simp
  | f :: g :: rest =>
    have hid : ∀ x ∈ S.selected fieldId, x.id = fieldId.toNat := by
      intro x hx
      simpa using (List.mem_filter.1 hx).2
    rw [hm] at hsel hid
    have hne := (List.pairwise_cons.1 hsel).1 g (by simp)
    exact absurd ((hid f (by simp)).trans (hid g (by simp)).symm) hne

/-- The IDs are different if those of fields that are not neighbours are. -/
theorem pairwise_ids_iff (h : S.checkAssertions = true) : S.Pairwise (fun f g => f.id ≠ g.id) ↔
    ∀ i j (hij : i + 1 < j) (hj : j < S.length), S[i].id ≠ S[j].id := by
  rw [List.pairwise_iff_getElem]
  constructor
  · intro hids i j hij hj
    exact hids i j (by omega) hj (by omega)
  · intro hids i j hi hj hij
    by_cases hnext : i + 1 = j
    · subst hnext
      exact (checkAssertions_neighbours h hj).2.2.2
    · exact hids i j (by omega) hj

end Schema

/-- **What is enforced.** A record type that is accepted is as the messages say exactly when no two fields that are
not neighbours have one ID. -/
theorem checkAssertions_enforces_iff {S : Schema} (h : S.checkAssertions = true) :
    S.Enforced ↔ ∀ i j (hij : i + 1 < j) (hj : j < S.length), S[i].id ≠ S[j].id := by
  rw [← Schema.pairwise_ids_iff h]
  constructor
  · intro henforced
    exact henforced.ids
  · intro hids
    exact { ids := hids
            types := Schema.nodup_of_checkAssertions h
            static := fun i hi => (Schema.staticFirst_of_checkAssertions h).static_iff_lt hi
            selects := Schema.length_selected_le hids }

def distinctIds : Schema :=
  [{ type := .trivial "uint8_t" 1, id := 1 }, { type := .trivial "uint16_t" 2, id := 2 }, { type := .string, id := 3 }]

theorem checkAssertions_enforces_distinctIds : distinctIds.Enforced := by
  refine (checkAssertions_enforces_iff (by decide)).2 fun i j hij hj => ?_
  have hj : j < 3 := hj
  obtain rfl : j = 2 := by omega
  obtain rfl : i = 0 := by omega
  simp [distinctIds]

/-- The first and the third field have the ID 1. -/
def sharedIds : Schema :=
  [{ type := .trivial "uint8_t" 1, id := 1 }, { type := .trivial "uint16_t" 2, id := 2 }, { type := .string, id := 1 }]

theorem not_enforced : ¬ ∀ S : Schema, S.checkAssertions = true → S.Enforced := by
  intro h
  have henforced := h sharedIds (by decide)
  have hselected : (sharedIds.selected 1).length = 2 := by decide
  have hle := henforced.selects 1
  omega

end CppDb
