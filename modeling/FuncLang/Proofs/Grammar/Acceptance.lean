import FuncLang.Grammar.Rule

/-! # Acceptance

A rule gives a value for any tokens, and raises a problem for each mistake. It accepts a relation
between values and tokens when the readings without problems are those of the relation: what is read
without a problem is related to its value, and tokens related to a value are read as that value. The
second half depends on what follows, since a rule reads on as long as it can.
-/

namespace FuncLang.Grammar

variable {α β : Type}

/-- Without problems, the rule reads exactly the tokens related to a value and gives that value,
provided that what follows them is none of its business. -/
structure Rule.Accepts (rule : Rule α) (Derived : α → List Token → Prop)
    (Follow : List Token → Prop) : Prop where
  sound : ∀ {finish : Position} {unread : List Token}, (rule.read finish unread).raised = [] →
    ∃ tokens, unread = tokens ++ (rule.read finish unread).rest ∧
      Derived (rule.read finish unread).value tokens
  complete : ∀ {value : α} {tokens : List Token}, Derived value tokens →
    ∀ (finish : Position) (rest : List Token), Follow rest →
      rule.read finish (tokens ++ rest) = ⟨value, [], rest⟩

/-- Items one after the other. -/
inductive Sequence (Item : α → List Token → Prop) : List α → List Token → Prop
  | nil : Sequence Item [] []
  | cons {value : α} {values : List α} {tokens others : List Token} (item : Item value tokens)
      (items : Sequence Item values others) : Sequence Item (value :: values) (tokens ++ others)

/-- Items are other items if, within the tokens of them all, the former are the latter. -/
theorem Sequence.imp {Item Item' : α → List Token → Prop} {values : List α} {tokens : List Token}
    (derived : Sequence Item values tokens)
    (convert : ∀ {value part}, part ⊆ tokens → Item value part → Item' value part) :
    Sequence Item' values tokens := by
  induction derived with
  | nil => exact .nil
  | @cons value values tokens others item _ ih =>
    refine .cons (convert (List.subset_append_left tokens others) item) (ih fun within => ?_)
    exact convert (List.Subset.trans within (List.subset_append_right tokens others))

namespace Rule

variable {Derived Derived' : α → List Token → Prop} {Follow Follow' : List Token → Prop}

theorem Accepts.mono {rule : Rule α} (accepts : rule.Accepts Derived Follow)
    (follow : ∀ {rest}, Follow' rest → Follow rest) : rule.Accepts Derived Follow' where
  sound := accepts.sound
  complete derived finish rest follows := accepts.complete derived finish rest (follow follows)

/-- A value of the rule is handed on without reading more. -/
theorem Accepts.map {rule : Rule α} (accepts : rule.Accepts Derived Follow) (f : α → β) :
    (do return f (← rule) : Rule β).Accepts (fun value tokens => ∃ inner, Derived inner tokens ∧
      value = f inner) Follow where
  sound {finish unread} clean := by
    simp only [read_bind, read_pure, List.append_nil] at clean ⊢
    obtain ⟨tokens, same, derived⟩ := accepts.sound clean
    exact ⟨tokens, same, _, derived, rfl⟩
  complete := by
    rintro _ tokens ⟨inner, derived, rfl⟩ finish rest follows
    simp only [read_bind, read_pure, accepts.complete derived finish rest follows, List.append_nil]

/-- One wanted token, the lack of which is a fault. -/
theorem expect_accepts (wanted : Token → Bool) (fault : Fault) :
    (expect wanted fault).Accepts (fun _ tokens => ∃ token, wanted token = true ∧ tokens = [token])
      (fun _ => True) where
  sound {finish unread} clean := by
    cases unread with
    | nil => simp at clean
    | cons token unread =>
      rw [read_expect_cons] at clean ⊢
      split at clean
      next found => exact ⟨[token], by simp [found], token, found, rfl⟩
      next => simp at clean
  complete := by
    rintro _ _ ⟨token, found, rfl⟩ finish rest _
    simp [found]

variable {stops : Token → Bool} {item : Token → Rule α} {Item : α → List Token → Prop}

private theorem manyRead_sound
    (accepts : ∀ token, (item token).Accepts (fun value tokens => Item value (token :: tokens)) Follow)
    (finish : Position) (unread : List Token)
    (clean : (manyRead stops item finish unread).raised = []) :
    ∃ tokens, unread = tokens ++ (manyRead stops item finish unread).rest ∧
      Sequence Item (manyRead stops item finish unread).value tokens := by
  fun_induction manyRead stops item finish unread with
  | case1 => exact ⟨[], rfl, .nil⟩
  | case2 => exact ⟨[], rfl, .nil⟩
  | case3 token unread _ one others ih =>
    obtain ⟨cleanOne, cleanOthers⟩ := List.append_eq_nil_iff.mp clean
    obtain ⟨read, same, derived⟩ := (accepts token).sound cleanOne
    obtain ⟨behind, sameBehind, items⟩ := ih cleanOthers
    refine ⟨(token :: read) ++ behind, ?_, .cons derived items⟩
    rw [same, List.cons_append, List.cons_append, List.append_assoc, ← sameBehind]

/-- Items are read one after the other, up to a token that stops them. Each begins with a token that
does not, and before which the item in front of it ends. -/
theorem many_accepts
    (accepts : ∀ token, (item token).Accepts (fun value tokens => Item value (token :: tokens)) Follow)
    (begins : ∀ {value tokens}, Item value tokens →
      ∃ first behind, tokens = first :: behind ∧ stops first = false ∧ ∀ rest, Follow (first :: rest)) :
    (many stops item).Accepts (Sequence Item)
      (fun rest => Follow rest ∧ ∀ token ∈ rest.head?, stops token = true) where
  sound clean := manyRead_sound accepts _ _ clean
  complete {values tokens} derived finish rest follows := by
    induction derived with
    | nil =>
      cases rest with
      | nil => exact read_many_nil stops item finish
      | cons token rest => exact read_many_stop (follows.2 token rfl) item finish rest
    | @cons value values tokens others derived items ih =>
      obtain ⟨first, behind, rfl, go, -⟩ := begins derived
      -- What comes behind the first item is the next one, or what follows them all.
      have next : Follow (others ++ rest) := by
        cases items with
        | nil => exact follows.1
        | cons derived' items' =>
          obtain ⟨first', behind', rfl, -, ends⟩ := begins derived'
          exact ends _
      have one := (accepts first).complete derived finish _ next
      rw [List.append_assoc, List.cons_append, read_many_item go, one]
      simp only [ih, List.append_nil]

end Rule

end FuncLang.Grammar
