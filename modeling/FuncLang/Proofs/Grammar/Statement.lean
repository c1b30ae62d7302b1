import FuncLang.Proofs.Grammar.Expression
import FuncLang.Proofs.Program.Derivation

/-! # Programs as they are read

The rules for parameters, declarations and statements accept the derivations of programs. A statement
is followed by the keyword of the next one, by the `endfunc` of its body or by the end of the input,
so its expression never reads on into what comes behind it.
-/

namespace FuncLang.Grammar

open Parameter (DerivesNames DerivesList)
open Statement (Declared Stated DerivesDeclaration)

/-- Whether no operator comes next. -/
def EndsStatement (unread : List Token) : Prop := ∀ token ∈ unread.head?, token.kind ≠ .operator

theorem ends_of_endsStatement {unread : List Token} (ends : EndsStatement unread) (level : Level) :
    level.Ends unread := by
  intro token next
  refine Option.eq_none_iff_forall_not_mem.mpr fun operator found => ?_
  exact ends token next (Level.operator?_eq_some found).2.1

theorem kind_of_isWord {word : String} {token : Token} (found : isWord word token = true) :
    token.kind = .keyword := by
  simp only [isWord, Token.isKeyword, Bool.and_eq_true, beq_iff_eq] at found
  exact found.1

/-- A keyword is not two words at once. -/
theorem isWord_unique {word other : String} {token : Token} (found : isWord word token = true)
    (different : foldCase word.toList ≠ foldCase other.toList) : isWord other token = false := by
  simp only [isWord, Token.isKeyword, Bool.and_eq_true, beq_iff_eq] at found
  simp [isWord, Token.isKeyword, found, different]

theorem endsStatement_of_isWord {word : String} {token : Token} (found : isWord word token = true)
    (rest : List Token) : EndsStatement (token :: rest) := by
  intro next same
  obtain rfl : token = next := by simpa using same
  simp [kind_of_isWord found]

/-- The name of a function is an identifier. -/
theorem functionName_accepts :
    functionName.Accepts (fun name tokens => ∃ token, token.kind = .identifier ∧
      name = some token.text ∧ tokens = [token]) (fun _ => True) where
  sound {finish unread} clean := by
    cases unread with
    | nil => simp at clean
    | cons token unread =>
      rw [read_functionName_cons] at clean ⊢
      split at clean
      next identifier =>
        rw [if_pos identifier]
        exact ⟨[token], rfl, token, identifier, rfl, rfl⟩
      next => simp at clean
  complete := by
    rintro _ _ ⟨token, identifier, rfl, rfl⟩ finish rest _
    simp [identifier]

/-- The parameter in front of the closing parenthesis, which is read with it. -/
theorem lastParameter_accepts :
    lastParameter.Accepts (fun parameters tokens => ∃ name closing, name.kind = .identifier ∧
      isPunctuation ")" closing = true ∧ parameters = [.named name.text] ∧ tokens = [name, closing])
      (fun _ => True) where
  sound {finish unread} clean := by
    match unread with
    | [] => simp [lastParameter] at clean
    | [name] =>
      by_cases identifier : name.kind = .identifier <;> simp [lastParameter, identifier] at clean
    | name :: closing :: unread =>
      by_cases identifier : name.kind = .identifier
      · by_cases closes : isPunctuation ")" closing = true
        · exact ⟨[name, closing], by simp [lastParameter, identifier, closes], name, closing,
            identifier, closes, by simp [lastParameter, identifier, closes], rfl⟩
        · simp [lastParameter, identifier, closes] at clean
      · simp [lastParameter, identifier] at clean
  complete := by
    rintro _ _ ⟨name, closing, identifier, closes, rfl, rfl⟩ finish rest _
    simp [lastParameter, identifier, closes]

/-- What is read behind an opening parenthesis: names, and the closing parenthesis. -/
theorem parameterList_accepts :
    parameterList.Accepts (fun parameters tokens => ∃ names closing, DerivesNames parameters names ∧
      isPunctuation ")" closing = true ∧ tokens = names ++ [closing]) (fun _ => True) where
  sound {finish unread} clean := by
    change (parameterListRead finish unread).raised = [] at clean
    change ∃ tokens, unread = tokens ++ (parameterListRead finish unread).rest ∧ _
    -- The list ends with its last parameter, whatever the reason that no comma follows that one.
    have ending (unread : List Token) (clean : (lastParameter.read finish unread).raised = []) :
        ∃ tokens, unread = tokens ++ (lastParameter.read finish unread).rest ∧ ∃ names closing,
          DerivesNames (lastParameter.read finish unread).value names ∧
            isPunctuation ")" closing = true ∧ tokens = names ++ [closing] := by
      obtain ⟨tokens, same, name, closing, identifier, closes, value, rfl⟩ :=
        lastParameter_accepts.sound clean
      exact ⟨[name, closing], same, [name], closing, value ▸ .single identifier, closes, rfl⟩
    change ∃ tokens, _ ∧ ∃ names closing,
      DerivesNames (parameterListRead finish unread).value names ∧ _
    fun_induction parameterListRead finish unread with
    | case1 name comma unread separated others ih =>
      obtain ⟨tokens, same, names, closing, derived, closes, rfl⟩ := ih clean
      simp only [Bool.and_eq_true, beq_iff_eq] at separated
      refine ⟨name :: comma :: (names ++ [closing]), by simpa using same, name :: comma :: names,
        closing, .more separated.1 separated.2 derived, closes, rfl⟩
    | case2 => exact ending _ clean
    | case3 => exact ending _ clean
    | case4 => exact ending _ clean
  complete := by
    rintro _ _ ⟨names, closing, derived, closes, rfl⟩ finish rest _
    change parameterListRead finish _ = _
    rw [List.append_assoc, List.singleton_append]
    induction derived with
    | @single name identifier =>
      have noComma : isPunctuation "," closing = false := by
        simp only [isPunctuation, Token.is, Bool.and_eq_true, beq_iff_eq] at closes
        simp [isPunctuation, Token.is, closes]
      simpa [parameterListRead, noComma] using lastParameter_accepts.complete
        ⟨name, closing, identifier, closes, rfl, rfl⟩ finish rest trivial
    | more identifier separates _ ih => simp [parameterListRead, identifier, separates, ih]

/-- The parentheses behind the name of a function and the parameters between them. -/
theorem parameterSection_accepts :
    parameterSection.Accepts (fun parameters tokens => ∃ opening list closing,
      isPunctuation "(" opening = true ∧ DerivesList parameters list ∧
        isPunctuation ")" closing = true ∧ tokens = opening :: (list ++ [closing]))
      (fun _ => True) where
  sound {finish unread} clean := by
    match unread with
    | [] => simp [parameterSection] at clean
    | [opening] =>
      by_cases opens : isPunctuation "(" opening = true
      · simp only [parameterSection, Rule.read_bind, Rule.read_eat_cons, opens, if_true,
          Rule.read_eat_nil, Bool.false_eq_true, if_false, List.nil_append] at clean
        obtain ⟨_, same, names, closing, -, -, rfl⟩ := parameterList_accepts.sound clean
        simp at same
      · simp [parameterSection, opens] at clean
    | opening :: next :: unread =>
      by_cases opens : isPunctuation "(" opening = true
      · by_cases closes : isPunctuation ")" next = true
        · exact ⟨[opening, next], by simp [parameterSection, opens, closes], opening, [], next,
            opens, by simpa [parameterSection, opens, closes] using .none, closes, rfl⟩
        · simp only [parameterSection, Rule.read_bind, Rule.read_eat_cons, opens, closes, if_true,
            Bool.false_eq_true, if_false, List.nil_append] at clean ⊢
          obtain ⟨tokens, same, names, closing, derived, closes, rfl⟩ :=
            parameterList_accepts.sound clean
          exact ⟨opening :: (names ++ [closing]), congrArg (opening :: ·) same, opening, names,
            closing, opens, .names derived, closes, rfl⟩
      · simp [parameterSection, opens] at clean
  complete := by
    rintro _ _ ⟨opening, list, closing, opens, derived, closes, rfl⟩ finish rest _
    cases derived with
    | none => simp [parameterSection, opens, closes]
    | names derived =>
      have read := parameterList_accepts.complete ⟨list, closing, derived, closes, rfl⟩ finish
        rest trivial
      obtain ⟨name, behind, rfl, identifier⟩ :
          ∃ name behind, list = name :: behind ∧ name.kind = .identifier := by
        cases derived with
        | single identifier => exact ⟨_, _, rfl, identifier⟩
        | more identifier => exact ⟨_, _, rfl, identifier⟩
      have more : isPunctuation ")" name = false := by simp [isPunctuation, Token.is, identifier]
      rw [List.cons_append, List.cons_append] at read
      simp [parameterSection, opens, more, -List.append_assoc, read]

/-- A `func` with what follows it: the parts of a declaration are read one after the other, and each
is accepted by a rule of its own. -/
theorem declared_accepts {nesting : Nat} {Body : List Statement → List Token → Prop}
    (bodies : (Rule.many (isWord "endfunc") (statementAfter (declarationAfter nesting))).Accepts Body
      (fun rest => EndsStatement rest ∧ ∀ token ∈ rest.head?, isWord "endfunc" token = true))
    {first : Token} (begins : isWord "func" first = true) :
    (declarationAfter (nesting + 1) first).Accepts
      (fun statement tokens => Declared Body statement (first :: tokens)) (fun _ => True) where
  sound {finish unread} clean := by
    rw [read_declarationAfter_succ] at clean ⊢
    simp only [List.append_eq_nil_iff] at clean
    obtain ⟨cleanName, cleanList, cleanStart, cleanBody, cleanLast⟩ := clean
    obtain ⟨_, sameName, name, identifier, valueName, rfl⟩ := functionName_accepts.sound cleanName
    obtain ⟨_, sameList, opening, list, closing, opens, derivedList, closes, rfl⟩ :=
      parameterSection_accepts.sound cleanList
    obtain ⟨_, sameStart, start, starts, rfl⟩ := (Rule.expect_accepts _ _).sound cleanStart
    obtain ⟨inner, sameBody, derivedBody⟩ := bodies.sound cleanBody
    obtain ⟨_, sameLast, last, ends, rfl⟩ := (Rule.expect_accepts _ _).sound cleanLast
    refine ⟨name :: opening :: (list ++ closing :: start :: (inner ++ [last])), ?_, ?_⟩
    · calc unread = [name] ++ _ := sameName
        _ = [name] ++ (opening :: (list ++ [closing]) ++ _) := congrArg _ sameList
        _ = [name] ++ (opening :: (list ++ [closing]) ++ ([start] ++ (inner ++ ([last] ++ _)))) := by
          rw [← sameLast, ← sameBody, ← sameStart]
        _ = _ := by simp
    · dsimp only
      rw [valueName]
      exact .intro begins identifier opens derivedList closes starts derivedBody ends
  complete := by
    rintro _ tokens derived finish rest _
    obtain ⟨-, identifier, opens, derivedList, closes, starts, derivedBody, ends⟩ := derived
    rename_i name opening closing start last parameters body list inner
    have readName := functionName_accepts.complete ⟨name, identifier, rfl, rfl⟩ finish
      (opening :: (list ++ closing :: start :: (inner ++ last :: rest))) trivial
    have readList := parameterSection_accepts.complete
      ⟨opening, list, closing, opens, derivedList, closes, rfl⟩ finish
      (start :: (inner ++ last :: rest)) trivial
    have readBody := bodies.complete derivedBody finish (last :: rest)
      ⟨endsStatement_of_isWord ends rest, by simpa using ends⟩
    simp only [List.cons_append, List.append_assoc, List.nil_append] at readName readList ⊢
    rw [read_declarationAfter_succ]
    simp only [readName, readList, Rule.read_expect_cons, starts, if_true, readBody, ends,
      List.nil_append]

theorem statementAfter_accepts {declaration : Token → Rule Statement}
    {Declaration : Statement → List Token → Prop}
    (declarations : ∀ {first}, isWord "func" first = true → (declaration first).Accepts
      (fun statement tokens => Declaration statement (first :: tokens)) (fun _ => True))
    (begins : ∀ {statement first tokens}, Declaration statement (first :: tokens) →
      isWord "func" first = true) (first : Token) :
    (statementAfter declaration first).Accepts
      (fun statement tokens => Stated Declaration statement (first :: tokens)) EndsStatement := by
  by_cases returns : isWord "return" first = true
  · have noFunc : isWord "func" first = false := isWord_unique returns (by decide)
    have value := (expression_accepts.mono fun {rest} (ends : EndsStatement rest) =>
      ⟨ends_of_endsStatement ends _, ends_of_endsStatement ends _⟩).map Statement.returns
    rw [statementAfter, if_pos returns]
    refine ⟨fun clean => ?_, fun derived => ?_⟩
    · obtain ⟨tokens, same, inner, derived, result⟩ := value.sound clean
      exact ⟨tokens, same, result ▸ .returns returns derived⟩
    · cases derived with
      | returns _ derived => exact value.complete ⟨_, derived, rfl⟩
      | declares declared => simp [begins declared] at noFunc
  · rw [statementAfter, if_neg returns]
    by_cases func : isWord "func" first = true
    · rw [if_pos func]
      refine ⟨fun clean => ?_, fun derived finish _ _ => ?_⟩
      · obtain ⟨tokens, same, declared⟩ := (declarations func).sound clean
        exact ⟨tokens, same, .declares declared⟩
      · cases derived with
        | returns returned _ => exact absurd returned returns
        | declares declared => exact (declarations func).complete declared finish _ trivial
    · rw [if_neg func]
      refine ⟨fun clean => by simp at clean, fun derived => ?_⟩
      cases derived with
      | returns returned _ => exact absurd returned returns
      | declares declared => exact absurd (begins declared) func

/-- Statements one after the other, up to a token with which none begins. -/
theorem statements_accept {nesting : Nat}
    (declarations : ∀ {first}, isWord "func" first = true → (declarationAfter nesting first).Accepts
      (fun statement tokens => DerivesDeclaration nesting statement (first :: tokens))
      (fun _ => True))
    {stops : Token → Bool} (going : ∀ {token}, isWord "return" token = true ∨
      isWord "func" token = true → stops token = false) :
    (Rule.many stops (statementAfter (declarationAfter nesting))).Accepts
      (Sequence (Statement.Derives nesting))
      (fun rest => EndsStatement rest ∧ ∀ token ∈ rest.head?, stops token = true) := by
  refine Rule.many_accepts (statementAfter_accepts declarations fun declared => ?_) ?_
  · obtain ⟨_, _, same, begins⟩ := declared.begins
    exact (List.cons.inj same).1 ▸ begins
  · intro statement tokens derived
    obtain ⟨first, behind, rfl, begins⟩ := derived.begins
    refine ⟨first, behind, rfl, going begins, fun rest => ?_⟩
    exact begins.elim (endsStatement_of_isWord · rest) (endsStatement_of_isWord · rest)

/-- By induction on how deep declarations may be nested. -/
theorem declarationAfter_accepts (nesting : Nat) {first : Token}
    (begins : isWord "func" first = true) :
    (declarationAfter nesting first).Accepts
      (fun statement tokens => DerivesDeclaration nesting statement (first :: tokens))
      (fun _ => True) := by
  induction nesting generalizing first with
  | zero => exact ⟨fun clean => by simp at clean, fun derived => derived.elim⟩
  | succ nesting ih =>
    refine declared_accepts (statements_accept ih fun begins => ?_) begins
    exact begins.elim (isWord_unique · (by decide)) (isWord_unique · (by decide))

/-- A whole input is read without a problem exactly if its tokens spell a program. -/
theorem program_accepts : program.Accepts Program.Derives (fun rest => rest = []) where
  sound clean := by
    obtain ⟨tokens, same, statements, derived, value⟩ :=
      ((statements_accept (declarationAfter_accepts maxNesting) fun _ => rfl).map Program.mk).sound
        clean
    exact ⟨tokens, same, value ▸ derived⟩
  complete {value tokens} derived finish rest follows := by
    subst follows
    exact ((statements_accept (declarationAfter_accepts maxNesting) fun _ => rfl).map
      Program.mk).complete ⟨_, derived, rfl⟩ finish [] ⟨by simp [EndsStatement], by simp⟩

end FuncLang.Grammar
