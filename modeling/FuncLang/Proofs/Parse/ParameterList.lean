import FuncLang.Proofs.Grammar.Alike
import FuncLang.Proofs.Grammar.ParameterList
import FuncLang.Proofs.Parse.Clean

/-! # Declarations whose list of parameters is malformed

Whatever stands between the parentheses of a list that is not well formed, it costs one diagnostic and does
no further damage, as long as the list is closed before a `do` or an `endfunc`. Behind it the source is
parsed as behind an empty list, whether or not anything is wrong there.
-/

namespace FuncLang

open Grammar (isWord isPunctuation)
open Parameter (namesIn isNameDue)

/-- What a diagnostic tells, apart from its position. -/
def Diagnostic.unplaced (diagnostic : Diagnostic) : Diagnostic.Cause × String :=
  (diagnostic.cause, diagnostic.message)

namespace Grammar

variable {opening name : Token}

/-- A statement that begins with `func` is a declaration. -/
theorem outerStatementAfter_of_func (begins : isWord "func" opening = true) :
    outerStatementAfter opening = declarationAfter maxNesting opening := by
  have noReturn : isWord "return" opening = false := isWord_unique begins (by decide)
  rw [outerStatementAfter, statementAfter, if_neg (by simp [noReturn]), if_pos begins]

/-- A program is its first statement and the program that follows. -/
theorem read_program_cons (finish : Position) (token : Token) (unread : List Token) :
    program.read finish (token :: unread) =
      let first := (outerStatementAfter token).read finish unread
      let others := program.read finish first.rest
      ⟨⟨first.value :: others.value.statements⟩, first.raised ++ others.raised, others.rest⟩ := by
  simp [program, Rule.read_many_item]

/-- What is read behind the parameters of the first declaration depends on nothing in front of it. -/
theorem exists_read_program_behind (begins : isWord "func" opening = true)
    (identifier : name.kind = .identifier) (finish : Position) (behind : List Token) :
    ∃ body others raised rest, ∀ unread parameters problems,
      parameterSection.read finish unread = ⟨parameters, problems, behind⟩ →
        program.read finish (opening :: name :: unread) =
          ⟨⟨.function (some name.text) parameters body :: others⟩, problems ++ raised, rest⟩ := by
  let start := (Rule.expect (isWord "do") .expectedDo).read finish behind
  let inner := statementAfter (declarationAfter (maxNesting - 1))
  let body := (Rule.many (isWord "endfunc") inner).read finish start.rest
  let closing := (Rule.expect (isWord "endfunc") .missingEndfunc).read finish body.rest
  let others := program.read finish closing.rest
  refine ⟨body.value, others.value.statements,
    start.raised ++ (body.raised ++ closing.raised) ++ others.raised, others.rest, ?_⟩
  intro unread parameters problems list
  have first : (outerStatementAfter opening).read finish (name :: unread) =
      ⟨.function (some name.text) parameters body.value,
        problems ++ (start.raised ++ (body.raised ++ closing.raised)), closing.rest⟩ := by
    rw [outerStatementAfter_of_func begins, maxNesting, read_declarationAfter_succ]
    simp only [read_functionName_cons, identifier, if_true, list, List.nil_append]
    rfl
  rw [read_program_cons, first]
  simp only [List.append_assoc]
  rfl

/-- Tokens with the same kinds and texts are alike. -/
theorem indistinct_lexeme : Indistinct fun token token' => token.lexeme = token'.lexeme :=
  fun _ _ same => congrArg Lexeme.normalized same

theorem unplaced_of_alike {problem problem' : Problem}
    (alike : problem.Alike (fun token token' => token.lexeme = token'.lexeme) problem') :
    problem.toDiagnostic.unplaced = problem'.toDiagnostic.unplaced := by
  obtain ⟨fault, token⟩ := problem
  obtain ⟨fault', token'⟩ := problem'
  obtain ⟨rfl, same⟩ : fault = fault' ∧ token.lexeme = token'.lexeme := alike
  have text : token.text = token'.text := congrArg Lexeme.text same
  simp only [Diagnostic.unplaced, Problem.toDiagnostic, Problem.cause, text]

/-- From tokens with the same kinds and texts, the same program is read, and the same problems are raised
at tokens in other positions. -/
theorem read_program_of_lexemes {unread unread' : List Token} (finish finish' : Position)
    (same : unread.map (·.lexeme) = unread'.map (·.lexeme)) :
    (program.read finish unread).value = (program.read finish' unread').value ∧
      (program.read finish unread).raised.map (·.toDiagnostic.unplaced) =
        (program.read finish' unread').raised.map (·.toDiagnostic.unplaced) := by
  have tokens : List.Forall₂ (fun token token' => token.lexeme = token'.lexeme) unread unread' := by
    rw [← List.forall₂_eq_eq_eq, List.forall₂_map_left_iff, List.forall₂_map_right_iff] at same
    exact same
  obtain ⟨value, raised, -⟩ :=
    program_alike indistinct_lexeme finish finish' rfl unread unread' tokens
  refine ⟨value, ?_⟩
  rw [← List.forall₂_eq_eq_eq, List.forall₂_map_left_iff, List.forall₂_map_right_iff]
  exact raised.imp fun _ _ => unplaced_of_alike

end Grammar

/-- The tree of a declaration with the parameters. -/
def declaredTree (name : String) (parameters : List Parameter) (body : List Tree) : Tree :=
  ⟨.functionDeclaration, name, parameters.map Parameter.toTree ++ [⟨.functionBody, "", body⟩]⟩

/-- Let two sources have the same tokens, apart from their layout, except that the first one has further
tokens between the parentheses of its first declaration, which are not names with commas between them. Then
the programs differ in the parameters of this declaration only, and the first source has one more
diagnostic in front of the others. The longest beginning that could be one of a list of names gives the
parameters; the diagnostic is at the token behind it, and if a name is due there, so is a placeholder. -/
theorem malformed_list_costs_one (config : Config) (a b : String)
    {opening name left right : Token} {listed behind : List Token}
    (whole : sentence a = opening :: name :: left :: (listed ++ right :: behind))
    (bare : (sentence b).map (·.lexeme) =
      (opening :: name :: left :: right :: behind).map (·.lexeme))
    (begins : isWord "func" opening = true) (identifier : name.kind = .identifier)
    (opens : isPunctuation "(" left = true) (closes : isPunctuation ")" right = true)
    (nonempty : listed ≠ [])
    (passed : ∀ token ∈ listed, isPunctuation ")" token = false ∧ isWord "do" token = false ∧
      isWord "endfunc" token = false)
    (malformed : ¬ ∃ parameters, Parameter.DerivesNames parameters listed)
    (room : (reading a).raised.length ≤ config.limit) :
    ∃ front back body others diagnostics,
      listed = front ++ back ∧ Parameter.BeginsNames front ∧
      (∀ longer, longer <+: listed → Parameter.BeginsNames longer → longer <+: front) ∧
      (parseWith config a).program.toTree.children = declaredTree name.text
        (namesIn front ++ if isNameDue front then [.unsupported] else []) body :: others ∧
      (parseWith config b).program.toTree.children = declaredTree name.text [] body :: others ∧
      (parseWith config a).diagnostics = ⟨.unexpectedToken (back.headD right).text,
        if isNameDue front then "expected parameter name"
          else "expected ',' or ')' in parameter list",
        (back.headD right).position⟩ :: diagnostics ∧
      diagnostics.map (·.unplaced) = (parseWith config b).diagnostics.map (·.unplaced) := by
  obtain ⟨front, back, same, offends, list⟩ :=
    Grammar.exists_read_parameterSection opens closes nonempty passed malformed
  obtain ⟨body, others, raised, rest, read⟩ := Grammar.exists_read_program_behind begins identifier
    (Unread.ofSource a).finish behind
  have readA := read _ _ _ (list _ behind)
  have readBare := read _ _ _ (Grammar.read_parameterSection_of_empty opens closes behind)
  obtain ⟨valueB, raisedB⟩ := Grammar.read_program_of_lexemes (Unread.ofSource b).finish
    (Unread.ofSource a).finish bare
  rw [← whole] at readA
  change reading a = _ at readA
  rw [readBare] at valueB raisedB
  change (reading b).value = _ at valueB
  change (reading b).raised.map _ = _ at raisedB
  have lengths := congrArg List.length raisedB
  have roomB : (reading b).raised.length ≤ config.limit := by
    simp only [readA, List.length_append, List.length_singleton] at room
    simp only [List.length_map, List.nil_append] at lengths
    omega
  refine ⟨front, back, Statement.toTrees body, Statement.toTrees others, raised.map (·.toDiagnostic),
    same, offends.begins, fun longer within => offends.isLongest (same ▸ within), ?_, ?_, ?_, ?_⟩
  · rw [program_parseWith, readA]
    rfl
  · rw [program_parseWith, valueB]
    rfl
  · rw [diagnostics_parseWith_of_room room, readA]
    split <;> rfl
  · rw [diagnostics_parseWith_of_room roomB, List.map_map, List.map_map]
    exact raisedB.symm

/-- The list begins with a name and a comma, and then goes on with a parenthesis and a number; what is behind
it is broken as well. -/
theorem malformed_list_costs_one_of_parenthesis :
    ∃ parameters body others,
      (parse "func f(x, (1) y do return").program.toTree.children =
        declaredTree "f" parameters body :: others ∧
      (parse "func f() y do return").program.toTree.children = declaredTree "f" [] body :: others ∧
      (parse "func f(x, (1) y do return").diagnostics.tail.map (·.unplaced) =
        (parse "func f() y do return").diagnostics.map (·.unplaced) := by
  have whole : sentence "func f(x, (1) y do return" =
      ⟨.keyword, "func", ⟨1, 1⟩⟩ :: ⟨.identifier, "f", ⟨1, 6⟩⟩ :: ⟨.punctuation, "(", ⟨1, 7⟩⟩ ::
        ([⟨.identifier, "x", ⟨1, 8⟩⟩, ⟨.punctuation, ",", ⟨1, 9⟩⟩, ⟨.punctuation, "(", ⟨1, 11⟩⟩,
            ⟨.integer, "1", ⟨1, 12⟩⟩] ++
          ⟨.punctuation, ")", ⟨1, 13⟩⟩ ::
            [⟨.identifier, "y", ⟨1, 15⟩⟩, ⟨.keyword, "do", ⟨1, 17⟩⟩, ⟨.keyword, "return", ⟨1, 20⟩⟩]) := by
    decide +kernel
  obtain ⟨front, back, body, others, diagnostics, -, -, -, tree, bare, located, behind⟩ :=
    malformed_list_costs_one .standard _ "func f() y do return" whole (by decide +kernel) (by decide) rfl
      (by decide) (by decide) (by simp) (by decide)
      (by
        rintro ⟨_, derived⟩
        obtain _ | ⟨_, _, others⟩ := derived
        cases others with
        | more identifier => cases identifier)
      (by decide +kernel)
  have tail : (parse "func f(x, (1) y do return").diagnostics.tail = diagnostics :=
    congrArg List.tail located
  exact ⟨_, body, others, tree, bare, tail ▸ behind⟩

end FuncLang
