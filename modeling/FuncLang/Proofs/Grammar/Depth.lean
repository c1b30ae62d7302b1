import FuncLang.Grammar.Statement

/-! # Open declarations

How deep declarations may be nested can be kept in two ways. The rules of the grammar are told how many
more declarations may be opened, and tell the statements of a body one less. Instead, the declarations
that are open can be counted while statements are read one after the other: one more in front of a body,
one less behind it. Then each statement is read with the count that the one before it has left.

Both ways agree: a count that has passed through statements is the same as before, however they were
read. So what is read with a count is what the rules read with what is left to the limit.
-/

namespace FuncLang.Grammar

variable {α β : Type}

/-- What is made of unread tokens while open declarations are counted. -/
structure Counted (α : Type) (unread : List Token) where
  reading : Reading α
  /-- How many declarations are open behind what was read. -/
  opened : Nat
  rest_suffix : reading.rest <:+ unread

theorem Counted.length_rest_le {unread : List Token} (counted : Counted α unread) :
    counted.reading.rest.length ≤ unread.length :=
  counted.rest_suffix.length_le

/-- Passes a value on, and the count with it. -/
def Counted.map {unread : List Token} (counted : Counted α unread) (f : α → β) : Counted β unread where
  reading := ⟨f counted.reading.value, counted.reading.raised, counted.reading.rest⟩
  opened := counted.opened
  rest_suffix := counted.rest_suffix

/-- Behind one more token, which was read already. -/
def Counted.behind {unread : List Token} (counted : Counted α unread) (token : Token) :
    Counted α (token :: unread) :=
  ⟨counted.reading, counted.opened, counted.rest_suffix.trans (List.suffix_cons token unread)⟩

/-- Reads by a rule that opens no declaration. -/
def Rule.counting (rule : Rule α) (opened : Nat) (finish : Position) (unread : List Token) :
    Counted α unread :=
  ⟨rule.read finish unread, opened, rule.rest_suffix finish unread⟩

/-- What stands between the `func` of a declaration and its body. -/
def header : Rule (Option String × List Parameter) := do
  let name ← functionName
  let parameters ← parameterSection
  Rule.expect (isWord "do") .expectedDo
  return (name, parameters)

mutual

/-- What follows the first token of a statement. -/
def countStatement (finish : Position) (opened : Nat) (first : Token) (unread : List Token) :
    Counted Statement unread :=
  if isWord "return" first then
    (do return .returns (← expression) : Rule Statement).counting opened finish unread
  else if isWord "func" first then countDeclaration finish opened first unread
  else
    (do Rule.blame first (strayFault first); return .unsupported : Rule Statement).counting
      opened finish unread
termination_by 3 * unread.length + 2
decreasing_by omega

/-- What follows the `func` of a declaration. Its body is read with one more open declaration, and the
count that the body leaves is lowered again. -/
def countDeclaration (finish : Position) (opened : Nat) (opening : Token) (unread : List Token) :
    Counted Statement unread :=
  if maxNesting ≤ opened then
    (do Rule.blame opening .nestedTooDeep; return .unsupportedFunction : Rule Statement).counting
      opened finish unread
  else
    let front := header.read finish unread
    let body := countStatements (isWord "endfunc") finish (opened + 1) front.rest
    let closing := (Rule.expect (isWord "endfunc") .missingEndfunc).read finish body.reading.rest
    { reading :=
        ⟨.function front.value.1 front.value.2 body.reading.value,
          front.raised ++ (body.reading.raised ++ closing.raised), closing.rest⟩
      opened := body.opened - 1
      rest_suffix := ((Rule.rest_suffix _ finish _).trans body.rest_suffix).trans
        (header.rest_suffix finish unread) }
termination_by 3 * unread.length + 1
decreasing_by
  have shorter := header.length_rest_le finish unread
  omega

/-- Statements up to a token that stops them, each with the count that is left by the one before it. -/
def countStatements (stops : Token → Bool) (finish : Position) (opened : Nat) :
    (unread : List Token) → Counted (List Statement) unread
  | [] => ⟨⟨[], [], []⟩, opened, List.suffix_refl []⟩
  | token :: unread =>
    if stops token then ⟨⟨[], [], token :: unread⟩, opened, List.suffix_refl _⟩
    else
      let one := countStatement finish opened token unread
      let others := countStatements stops finish one.opened one.reading.rest
      { reading :=
          ⟨one.reading.value :: others.reading.value, one.reading.raised ++ others.reading.raised,
            others.reading.rest⟩
        opened := others.opened
        rest_suffix := (others.rest_suffix.trans one.rest_suffix).trans (List.suffix_cons token unread) }
termination_by unread => 3 * unread.length
decreasing_by
  · simp only [List.length_cons]
    omega
  · exact Nat.mul_lt_mul_of_pos_left (Nat.lt_succ_of_le (Counted.length_rest_le _)) (by decide)

end

/-- A statement. -/
def countOuterStatement (finish : Position) (opened : Nat) :
    (unread : List Token) → Counted Statement unread
  | [] => statement.counting opened finish []
  | first :: unread => (countStatement finish opened first unread).behind first

/-- A function declaration; where there is no `func` nothing is read. -/
def countFunction (finish : Position) (opened : Nat) :
    (unread : List Token) → Counted Statement unread
  | [] => function.counting opened finish []
  | opening :: unread =>
    if isWord "func" opening then (countDeclaration finish opened opening unread).behind opening
    else function.counting opened finish (opening :: unread)

/-- All statements up to the end of the input. -/
def countProgram (finish : Position) (opened : Nat) (unread : List Token) : Counted Program unread :=
  (countStatements (fun _ => false) finish opened unread).map Program.mk

/-! ## Agreement -/

section Agreement

variable {finish : Position} {opened : Nat} {unread : List Token}

/-- What was read with a count is the given reading, and the count is the given one. -/
structure Counted.Agrees (counted : Counted α unread) (reading : Reading α) (opened : Nat) : Prop where
  reading : counted.reading = reading
  opened : counted.opened = opened

theorem Counted.Agrees.map {rule : Rule α} {counted : Counted α unread}
    (agrees : counted.Agrees (rule.read finish unread) opened) (f : α → β) :
    (counted.map f).Agrees ((do return f (← rule) : Rule β).read finish unread) opened := by
  obtain ⟨same, kept⟩ := agrees
  refine ⟨?_, kept⟩
  simp [Counted.map, same]

theorem read_header (finish : Position) (unread : List Token) :
    header.read finish unread =
      let name := functionName.read finish unread
      let parameters := parameterSection.read finish name.rest
      let start := (Rule.expect (isWord "do") .expectedDo).read finish parameters.rest
      ⟨(name.value, parameters.value), name.raised ++ (parameters.raised ++ start.raised),
        start.rest⟩ := by
  simp [header]

variable {declaration item : Token → Rule Statement}

theorem countStatement_agrees
    (declarations : ∀ opening unread, (countDeclaration finish opened opening unread).Agrees
      ((declaration opening).read finish unread) opened) (first : Token) (unread : List Token) :
    (countStatement finish opened first unread).Agrees
      ((statementAfter declaration first).read finish unread) opened := by
  rw [countStatement, statementAfter]
  split
  · exact ⟨rfl, rfl⟩
  · split
    · exact declarations first unread
    · exact ⟨rfl, rfl⟩

/-- No statement changes the count with which the next one is read. -/
theorem countStatements_agrees
    (items : ∀ first unread, (countStatement finish opened first unread).Agrees
      ((item first).read finish unread) opened) (stops : Token → Bool) (unread : List Token) :
    (countStatements stops finish opened unread).Agrees
      ((Rule.many stops item).read finish unread) opened := by
  change (countStatements stops finish opened unread).Agrees
    (Rule.manyRead stops item finish unread) opened
  fun_induction Rule.manyRead stops item finish unread with
  | case1 =>
    rw [countStatements]
    exact ⟨rfl, rfl⟩
  | case2 token unread stop =>
    rw [countStatements, if_pos stop]
    exact ⟨rfl, rfl⟩
  | case3 token unread go one others ih =>
    obtain ⟨reading, kept⟩ := items token unread
    obtain ⟨behind, keptBehind⟩ := ih
    rw [countStatements, if_neg go]
    constructor
    · dsimp only
      rw [reading, kept, behind]
    · dsimp only
      rw [reading, kept, keptBehind]

/-- The count of open declarations and what is left to the limit make up the limit. By induction on what
is left: one more is open in a body, and one less is left. -/
theorem countDeclaration_agrees (nesting : Nat) (room : opened + nesting = maxNesting)
    (opening : Token) (unread : List Token) :
    (countDeclaration finish opened opening unread).Agrees
      ((declarationAfter nesting opening).read finish unread) opened := by
  induction nesting generalizing opened opening unread with
  | zero =>
    rw [countDeclaration, if_pos (by omega)]
    exact ⟨rfl, rfl⟩
  | succ nesting ih =>
    have statements := countStatement_agrees (@ih (opened + 1) (by omega))
    obtain ⟨body, kept⟩ :=
      countStatements_agrees statements (isWord "endfunc") (header.read finish unread).rest
    rw [countDeclaration, if_neg (by omega), read_declarationAfter_succ]
    constructor
    · dsimp only
      rw [body, read_header]
      simp only [List.append_assoc]
    · dsimp only
      rw [kept, Nat.add_sub_cancel]

/-- Outside of all declarations none is open, and everything is left. -/
theorem countOuterStatement_agrees (finish : Position) (unread : List Token) :
    (countOuterStatement finish 0 unread).Agrees (statement.read finish unread) 0 := by
  cases unread with
  | nil => exact ⟨rfl, rfl⟩
  | cons first unread =>
    obtain ⟨reading, kept⟩ :=
      countStatement_agrees (countDeclaration_agrees maxNesting (Nat.zero_add _)) first unread
    rw [read_statement_cons]
    exact ⟨reading, kept⟩

theorem countFunction_agrees (finish : Position) (unread : List Token) :
    (countFunction finish 0 unread).Agrees (function.read finish unread) 0 := by
  cases unread with
  | nil => exact ⟨rfl, rfl⟩
  | cons opening unread =>
    rw [countFunction]
    split
    next func =>
      obtain ⟨reading, kept⟩ :=
        @countDeclaration_agrees finish 0 maxNesting (Nat.zero_add _) opening unread
      refine ⟨?_, kept⟩
      simpa [function, func, Counted.behind] using reading
    next => exact ⟨rfl, rfl⟩

theorem countProgram_agrees (finish : Position) (unread : List Token) :
    (countProgram finish 0 unread).Agrees (program.read finish unread) 0 := by
  have statements (first : Token) (unread : List Token) :
      (countStatement finish 0 first unread).Agrees ((outerStatementAfter first).read finish unread) 0 :=
    countStatement_agrees (countDeclaration_agrees maxNesting (Nat.zero_add _)) first unread
  exact (countStatements_agrees statements (fun _ => false) unread).map Program.mk

end Agreement

end FuncLang.Grammar
