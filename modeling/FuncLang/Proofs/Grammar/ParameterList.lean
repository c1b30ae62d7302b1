import FuncLang.Proofs.Grammar.Statement
import FuncLang.Proofs.Program.Derivation

/-! # Where a list of parameters goes wrong

A list of names with commas between them can be followed up to the first token that does not go on with it.
That token stands where a name is due or where a comma is. Whichever it is, the names in front of it become
parameters, one problem is raised there, and the rest of the list is passed over together with its closing
parenthesis. So what comes behind the list is read as if the list had been empty.
-/

namespace FuncLang

open Grammar (isPunctuation)

namespace Parameter

/-- The beginning of a list of names, which more names or commas can complete. -/
def BeginsNames (tokens : List Token) : Prop :=
  ∃ more parameters, DerivesNames parameters (tokens ++ more)

/-- The names among the tokens. -/
def namesIn (tokens : List Token) : List Parameter :=
  (tokens.filter (·.kind == .identifier)).map (.named ·.text)

/-- Whether a name is due behind the tokens: there are none, or the last one is a comma. -/
def isNameDue (tokens : List Token) : Bool := tokens.getLast?.all (isPunctuation ",")

/-- Names and commas go on up to a token that is no name where one is due, or neither a comma nor a closing
parenthesis where one of these is. -/
inductive Offends : List Token → Token → Prop
  | name {offending : Token} (other : offending.kind ≠ .identifier) : Offends [] offending
  | separator {name offending : Token} (identifier : name.kind = .identifier)
      (goesOn : isPunctuation "," offending = false) (ends : isPunctuation ")" offending = false) :
      Offends [name] offending
  | more {name comma offending : Token} {front : List Token} (identifier : name.kind = .identifier)
      (separates : isPunctuation "," comma = true) (others : Offends front offending) :
      Offends (name :: comma :: front) offending

variable {front back longer tokens : List Token} {offending token : Token}

theorem BeginsNames.of_prefix (begins : BeginsNames tokens) (within : front <+: tokens) :
    BeginsNames front := by
  obtain ⟨more, parameters, derived⟩ := begins
  obtain ⟨back, rfl⟩ := within
  rw [List.append_assoc] at derived
  exact ⟨back ++ more, parameters, derived⟩

theorem kind_of_isPunctuation {text : String} (mark : isPunctuation text token = true) :
    token.kind = .punctuation := by
  simp only [isPunctuation, Token.is, Bool.and_eq_true, beq_iff_eq] at mark
  exact mark.1

namespace Offends

theorem begins (offends : Offends front offending) : BeginsNames front := by
  induction offends with
  | name => exact ⟨[⟨.identifier, "", Position.first⟩], _, .single rfl⟩
  | separator identifier => exact ⟨[], _, .single identifier⟩
  | more identifier separates _ ih =>
    obtain ⟨more, parameters, derived⟩ := ih
    exact ⟨more, _, .more identifier separates derived⟩

/-- The list cannot go on with the token. -/
theorem not_begins (offends : Offends front offending) : ¬ BeginsNames (front ++ [offending]) := by
  rintro ⟨more, parameters, derived⟩
  induction offends generalizing parameters with
  | name other =>
    cases derived with
    | single identifier => exact other identifier
    | more identifier => exact other identifier
  | separator _ goesOn =>
    cases derived with
    | more _ separates => exact Bool.noConfusion (goesOn.symm.trans separates)
  | more _ _ _ ih =>
    cases derived with
    | more _ _ others => exact ih _ others

/-- No longer beginning of the tokens begins a list of names. -/
theorem isLongest (offends : Offends front (back.headD offending)) (within : longer <+: front ++ back)
    (begins : BeginsNames longer) : longer <+: front := by
  rcases List.prefix_or_prefix_of_prefix within (List.prefix_append front back) with shorter | ⟨more, rfl⟩
  · exact shorter
  · cases more with
    | nil => simp
    | cons token more =>
      obtain ⟨rest, rfl⟩ := (List.prefix_append_right_inj front).mp within
      refine absurd (begins.of_prefix ?_) offends.not_begins
      exact (List.prefix_append_right_inj front).mpr (List.prefix_append [token] more)

end Offends

/-- A list that is closed but not made of names with commas between them goes wrong at one of its tokens, or
at the parenthesis that closes it. -/
theorem exists_offends {closing : Token} (closes : isPunctuation ")" closing = true)
    (listed : List Token) (inside : ∀ token ∈ listed, isPunctuation ")" token = false)
    (malformed : ¬ ∃ parameters, DerivesNames parameters listed) :
    ∃ front back, listed = front ++ back ∧ Offends front (back.headD closing) := by
  match listed with
  | [] =>
    have other : closing.kind ≠ .identifier := by simp [kind_of_isPunctuation closes]
    exact ⟨[], [], rfl, .name other⟩
  | [token] =>
    have other : token.kind ≠ .identifier := fun identifier => malformed ⟨_, .single identifier⟩
    exact ⟨[], [token], rfl, .name other⟩
  | name :: comma :: others =>
    by_cases identifier : name.kind = .identifier
    · by_cases separates : isPunctuation "," comma = true
      · obtain ⟨front, back, rfl, offends⟩ := exists_offends closes others
          (fun token member => inside token (by simp [member]))
          fun ⟨parameters, derived⟩ => malformed ⟨_, .more identifier separates derived⟩
        exact ⟨name :: comma :: front, back, rfl, .more identifier separates offends⟩
      · have ends := inside comma (by simp)
        exact ⟨[name], comma :: others, rfl, .separator identifier (by simpa using separates) ends⟩
    · exact ⟨[], name :: comma :: others, rfl, .name identifier⟩

end Parameter

namespace Grammar

open Parameter (namesIn isNameDue Offends)

variable {finish : Position} {front listed : List Token} {name comma offending left right : Token}

theorem isNameDue_cons_comma (separates : isPunctuation "," comma = true) (name : Token)
    (front : List Token) : isNameDue (name :: comma :: front) = isNameDue front := by
  cases front with
  | nil => simpa [isNameDue] using separates
  | cons token front => simp [isNameDue, List.getLast?_cons]

theorem namesIn_cons_comma (identifier : name.kind = .identifier)
    (separates : isPunctuation "," comma = true) (front : List Token) :
    namesIn (name :: comma :: front) = .named name.text :: namesIn front := by
  have mark := Parameter.kind_of_isPunctuation separates
  simp [namesIn, identifier, mark]

/-- What is read of a list that goes wrong at the token. -/
theorem read_parameterList_of_offends (offends : Offends front offending) (others : List Token) :
    parameterList.read finish (front ++ offending :: others) =
      ⟨namesIn front ++ (if isNameDue front then [.unsupported] else []),
        [⟨if isNameDue front then .expectedParameter else .expectedSeparator, offending⟩],
        skipList (offending :: others)⟩ := by
  change parameterListRead finish (front ++ offending :: others) = _
  induction offends with
  | @name offending other =>
    have last : parameterListRead finish ([] ++ offending :: others) =
        lastParameter.read finish (offending :: others) := by
      cases others <;> simp [parameterListRead, other]
    rw [last]
    simp [lastParameter, other, namesIn, isNameDue]
  | @separator name offending identifier goesOn ends =>
    have last : parameterListRead finish ([name] ++ offending :: others) =
        lastParameter.read finish (name :: offending :: others) := by
      simp [parameterListRead, goesOn]
    have noComma : isPunctuation "," name = false := by simp [isPunctuation, Token.is, identifier]
    rw [last]
    simp [lastParameter, identifier, ends, namesIn, isNameDue, noComma]
  | more identifier separates _ ih =>
    simp only [List.cons_append, parameterListRead, identifier, separates, beq_self_eq_true,
      Bool.and_self, if_true, ih]
    rw [namesIn_cons_comma identifier separates, isNameDue_cons_comma separates, List.cons_append]

/-- Nothing is left of a list that is skipped, if none of its tokens stops that. -/
theorem skipList_append_closing (closes : isPunctuation ")" right = true) (behind : List Token)
    (passed : ∀ token ∈ listed, isPunctuation ")" token = false ∧ isWord "do" token = false ∧
      isWord "endfunc" token = false) :
    skipList (listed ++ right :: behind) = behind := by
  induction listed with
  | nil =>
    have mark := Parameter.kind_of_isPunctuation closes
    simp [skipList, closes, isWord, Token.isKeyword, mark]
  | cons token listed ih =>
    obtain ⟨⟨ends, noDo, noEnd⟩, others⟩ := List.forall_mem_cons.mp passed
    simp only [List.cons_append, skipList, ends, noDo, noEnd, Bool.or_self, Bool.false_eq_true, if_false]
    exact ih others

/-- A list with nothing in it. -/
theorem read_parameterSection_of_empty (opens : isPunctuation "(" left = true)
    (closes : isPunctuation ")" right = true) (behind : List Token) :
    parameterSection.read finish (left :: right :: behind) = ⟨[], [], behind⟩ := by
  simp [parameterSection, opens, closes]

/-- A list that goes wrong is read up to its closing parenthesis all the same, with its names as parameters
and one problem. -/
theorem exists_read_parameterSection (opens : isPunctuation "(" left = true)
    (closes : isPunctuation ")" right = true) (nonempty : listed ≠ [])
    (passed : ∀ token ∈ listed, isPunctuation ")" token = false ∧ isWord "do" token = false ∧
      isWord "endfunc" token = false)
    (malformed : ¬ ∃ parameters, Parameter.DerivesNames parameters listed) :
    ∃ front back, listed = front ++ back ∧ Offends front (back.headD right) ∧
      ∀ finish behind, parameterSection.read finish (left :: (listed ++ right :: behind)) =
        ⟨namesIn front ++ (if isNameDue front then [.unsupported] else []),
          [⟨if isNameDue front then .expectedParameter else .expectedSeparator, back.headD right⟩],
          behind⟩ := by
  obtain ⟨front, back, rfl, offends⟩ :=
    Parameter.exists_offends closes listed (fun token member => (passed token member).1) malformed
  refine ⟨front, back, rfl, offends, fun finish behind => ?_⟩
  obtain ⟨first, others, split⟩ := List.exists_cons_of_ne_nil nonempty
  have unclosed : isPunctuation ")" first = false := (passed first (by simp [split])).1
  have list : parameterSection.read finish (left :: (front ++ back ++ right :: behind)) =
      parameterList.read finish (front ++ back ++ right :: behind) := by
    rw [split]
    simp [parameterSection, opens, unclosed]
  obtain ⟨rest, same⟩ : ∃ rest, back ++ right :: behind = back.headD right :: rest := by
    cases back <;> exact ⟨_, rfl⟩
  have skipped := skipList_append_closing closes behind
    fun token member => passed token (List.mem_append_right front member)
  rw [same] at skipped
  rw [list, List.append_assoc, same, read_parameterList_of_offends offends, skipped]

end Grammar

end FuncLang
