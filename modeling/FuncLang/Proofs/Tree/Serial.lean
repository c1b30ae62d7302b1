import FuncLang.Tree

/-! # Serialised trees

Serialised values are equal if they have equal parts. The order in which the fields of an object are written
does not count, and so equal values may differ as they are written. Trees are not equal as serialised values
unless they are equal: kinds have names of their own, and the other fields show values and children.
-/

namespace FuncLang

namespace Json

/-- Equality of serialised values: arrays agree element by element, and objects field by field, in whatever
order their fields are written. Of two fields with one name the first one counts. -/
inductive Same : Json → Json → Prop
  | text (value : String) : Same (.text value) (.text value)
  | number (value : Nat) : Same (.number value) (.number value)
  | array {elements others : List Json} (lengths : elements.length = others.length)
      (alike : ∀ (index : Nat) (one other : Json),
        elements[index]? = some one → others[index]? = some other → Same one other) :
      Same (.array elements) (.array others)
  | object {fields others : List (String × Json)}
      (names : ∀ name, (fields.lookup name).isSome = (others.lookup name).isSome)
      (alike : ∀ (name : String) (one other : Json),
        fields.lookup name = some one → others.lookup name = some other → Same one other) :
      Same (.object fields) (.object others)

namespace Same

protected theorem refl (value : Json) : value.Same value := by
  match value with
  | .text value => exact .text value
  | .number value => exact .number value
  | .array elements =>
    refine .array rfl fun index one other found same => ?_
    obtain rfl := Option.some.inj (found.symm.trans same)
    have smaller := List.sizeOf_lt_of_mem (List.mem_of_getElem? found)
    exact Same.refl one
  | .object fields =>
    refine .object (fun _ => rfl) fun name one other found same => ?_
    obtain rfl := Option.some.inj (found.symm.trans same)
    obtain ⟨front, back, split, -⟩ := List.lookup_eq_some_iff.mp found
    have smaller : sizeOf one < sizeOf fields := by
      have entry := List.sizeOf_lt_of_mem (show (name, one) ∈ fields by simp [split])
      rw [Prod.mk.sizeOf_spec] at entry
      omega
    exact Same.refl one
termination_by sizeOf value
decreasing_by
  all_goals simp only [Json.array.sizeOf_spec, Json.object.sizeOf_spec]; omega

theorem text_iff {value other : String} : Same (.text value) (.text other) ↔ value = other := by
  constructor
  · rintro ⟨⟩
    rfl
  · rintro rfl
    exact .text value

variable {one other : Json} {elements others : List Json} {fields fields' : List (String × Json)}

theorem length_eq (same : Same (.array elements) (.array others)) : elements.length = others.length := by
  cases same with
  | array lengths => exact lengths

theorem of_array_cons (same : Same (.array (one :: elements)) (.array (other :: others))) :
    one.Same other ∧ Same (.array elements) (.array others) := by
  cases same with
  | array lengths alike =>
    exact ⟨alike 0 one other rfl rfl, .array (Nat.succ.inj lengths) fun index => alike (index + 1)⟩

theorem of_field (same : Same (.object fields) (.object fields')) (name : String)
    (found : fields.lookup name = some one) (found' : fields'.lookup name = some other) :
    one.Same other := by
  cases same with
  | object _ alike => exact alike name one other found found'

end Same

end Json

namespace Tree

/-- No two kinds have one name. -/
theorem Kind.name_inj {kind kind' : Kind} (same : kind.name = kind'.name) : kind = kind' := by
  have found := ofName?_name kind
  rw [same, ofName?_name] at found
  exact (Option.some.inj found).symm

mutual

/-- Trees are equal if they are equal as serialised values. -/
theorem eq_of_same_toJson : (a b : Tree) → a.toJson.Same b.toJson → a = b
  | ⟨kind, value, children⟩, ⟨kind', value', children'⟩, same => by
    have kinds : kind = kind' :=
      Kind.name_inj (Json.Same.text_iff.mp (same.of_field "kind" rfl rfl))
    have values : value = value' := Json.Same.text_iff.mp (same.of_field "value" rfl rfl)
    have below : children = children' :=
      eq_of_same_listToJson children children' (same.of_field "children" rfl rfl)
    rw [kinds, values, below]

theorem eq_of_same_listToJson : (as bs : List Tree) →
    Json.Same (.array (listToJson as)) (.array (listToJson bs)) → as = bs
  | [], [], _ => rfl
  | [], _ :: _, same => by cases same.length_eq
  | _ :: _, [], same => by cases same.length_eq
  | a :: as, b :: bs, same => by
    obtain ⟨first, others⟩ := same.of_array_cons
    rw [eq_of_same_toJson a b first, eq_of_same_listToJson as bs others]

end

end Tree

end FuncLang
