import FuncLang.Proofs.Grammar.Check
import FuncLang.Proofs.Grammar.Contract

/-! # Notes and problems

Where a rule of the grammar raises problems, keeping notes leads to the same value and leaves the same
tokens. The checks that are not passed on the way are the problems, one for one and in the same order. Their
diagnostics are what is recorded, and the first of them is what comes into the slot if it is still empty,
or what is told by the outcome: no matter how many outcomes it has been absorbed from on the way.
-/

namespace FuncLang.Grammar

/-- The problems of the checks that are not passed. -/
def failures (checks : List Check) : List Problem :=
  (checks.filter (!·.passed)).map (·.problem)

@[simp] theorem failures_nil : failures [] = [] := rfl

@[simp] theorem failures_append (checks others : List Check) :
    failures (checks ++ others) = failures checks ++ failures others := by
  simp [failures]

theorem failures_cons_of_passed {check : Check} (passed : check.passed = true) (checks : List Check) :
    failures (check :: checks) = failures checks := by
  simp [failures, passed]

theorem failures_cons_of_failed {check : Check} (failed : check.passed = false) (checks : List Check) :
    failures (check :: checks) = check.problem :: failures checks := by
  simp [failures, failed]

namespace Notes

/-- The notes behind further checks. Every failure is recorded, and the first one is kept. -/
def behind (notes : Notes) (checks : List Check) : Notes :=
  let diagnostics := (failures checks).map (·.toDiagnostic)
  ⟨notes.log.record diagnostics, notes.first.or diagnostics.head?, notes.checks ++ checks⟩

@[simp] theorem behind_nil (notes : Notes) : notes.behind [] = notes := by
  simp [behind]

@[simp] theorem behind_append (notes : Notes) (checks others : List Check) :
    notes.behind (checks ++ others) = (notes.behind checks).behind others := by
  simp [behind, Diagnostic.Log.record_append, Option.or_assoc]

variable {check : Check}

theorem behind_cons_of_passed (passed : check.passed = true) (notes : Notes) (checks : List Check) :
    notes.behind (check :: checks) = (notes.tested check).behind checks := by
  simp [behind, tested, failures_cons_of_passed passed]

theorem behind_cons_of_failed (failed : check.passed = false) (notes : Notes) (checks : List Check) :
    notes.behind (check :: checks) =
      (((notes.tested check).record check).keep (some check.diagnostic)).behind checks := by
  have single : failures [check] = [check.problem] := failures_cons_of_failed failed []
  rw [← List.singleton_append, behind_append]
  simp [behind, tested, record, keep, single, Check.diagnostic]

end Notes

namespace Noting

variable {α β : Type} {finish : Position} {unread : List Token}

/-- What is read is the given reading, and its problems are the failures that are noted. -/
def Makes (noting : Noting α) (finish : Position) (unread : List Token) (reading : Reading α) : Prop :=
  ∃ checks, failures checks = reading.raised ∧ ∀ notes, noting.read finish unread notes =
    ⟨reading.value, reading.rest, notes.behind checks⟩

/-- The outcome is that of the given reading, whose problems are noted as failures. The slot of the rule that
asks for it stays as it was. -/
def Reports (noting : Noting (Outcome α)) (finish : Position) (unread : List Token)
    (reading : Reading α) : Prop :=
  ∃ checks, failures checks = reading.raised ∧ ∀ notes, noting.read finish unread notes =
    ⟨⟨reading.value, (reading.raised.map (·.toDiagnostic)).head?⟩, reading.rest,
      { notes.behind checks with first := notes.first }⟩

/-- Whatever the tokens are, the rule makes the same of them. -/
def Follows (noting : Noting α) (rule : Rule α) : Prop :=
  ∀ finish unread, noting.Makes finish unread (rule.read finish unread)

/-- Whatever the tokens are, the outcome is that of the rule. -/
def Answers (noting : Noting (Outcome α)) (rule : Rule α) : Prop :=
  ∀ finish unread, noting.Reports finish unread (rule.read finish unread)

theorem pure_follows (value : α) : (pure value : Noting α).Follows (pure value) :=
  fun _ _ => ⟨[], rfl, fun notes => by simp⟩

theorem pure_answers (value : α) : (pure ⟨value, none⟩ : Noting (Outcome α)).Answers (pure value) :=
  fun _ _ => ⟨[], rfl, fun notes => by simp⟩

/-- The failures of the one come before those of the other. -/
theorem Makes.bind {noting : Noting α} {next : α → Noting β} {one : Reading α} {value : β}
    {raised : List Problem} {rest : List Token} (first : noting.Makes finish unread one)
    (second : (next one.value).Makes finish one.rest ⟨value, raised, rest⟩) :
    (noting >>= next).Makes finish unread ⟨value, one.raised ++ raised, rest⟩ := by
  obtain ⟨checks, failed, same⟩ := first
  obtain ⟨others, failedBehind, sameBehind⟩ := second
  refine ⟨checks ++ others, ?_, fun notes => ?_⟩
  · rw [failures_append, failed, failedBehind]
  · simp only [read_bind, same, sameBehind, Notes.behind_append]

theorem Makes.map {noting : Noting α} {reading : Reading α} (makes : noting.Makes finish unread reading)
    (f : α → β) : (do return f (← noting) : Noting β).Makes finish unread
      ⟨f reading.value, reading.raised, reading.rest⟩ := by
  obtain ⟨checks, failed, same⟩ := makes
  exact ⟨checks, failed, fun notes => by simp only [read_bind, read_pure, same]⟩

/-- It is enough to know what is read after some tokens. -/
theorem Makes.of_read_eq {noting other : Noting α} {reading : Reading α} {behind : List Token}
    (makes : other.Makes finish behind reading)
    (same : ∀ notes, noting.read finish unread notes = other.read finish behind notes) :
    noting.Makes finish unread reading := by
  obtain ⟨checks, failed, read⟩ := makes
  exact ⟨checks, failed, fun notes => (same notes).trans (read notes)⟩

theorem Follows.bind {noting : Noting α} {rule : Rule α} {next : α → Noting β} {next' : α → Rule β}
    (first : noting.Follows rule) (second : ∀ value, (next value).Follows (next' value)) :
    (noting >>= next).Follows (rule >>= next') :=
  fun finish unread => (first finish unread).bind (second _ finish _)

theorem silently_follows {rule : Rule α}
    (silent : ∀ finish unread, (rule.read finish unread).raised = []) :
    (silently rule).Follows rule :=
  fun finish unread => ⟨[], (silent finish unread).symm, fun notes => by simp [silently]⟩

/-! ## Slots -/

/-- The slot of a rule begins empty, so it comes to hold the first failure. -/
theorem Follows.withSlot {body : Noting α} {rule : Rule α} (follows : body.Follows rule) :
    (withSlot body).Answers rule := by
  intro finish unread
  obtain ⟨checks, failed, same⟩ := follows finish unread
  refine ⟨checks, failed, fun notes => ?_⟩
  simp only [Noting.withSlot, same, Notes.behind, failed, Option.none_or]

/-- What the outcome tells is the first failure, so it is kept exactly if it would have been flagged. -/
theorem Reports.absorb {noting : Noting (Outcome α)} {reading : Reading α}
    (reports : noting.Reports finish unread reading) : (absorb noting).Makes finish unread reading := by
  obtain ⟨checks, failed, same⟩ := reports
  refine ⟨checks, failed, fun notes => ?_⟩
  simp only [Noting.absorb, same, Notes.behind, Notes.keep, failed]

theorem Answers.absorb {noting : Noting (Outcome α)} {rule : Rule α} (answers : noting.Answers rule) :
    (absorb noting).Follows rule :=
  fun finish unread => (answers finish unread).absorb

theorem Answers.map {noting : Noting (Outcome α)} {rule : Rule α} (answers : noting.Answers rule)
    (f : α → β) :
    (do return (← noting).map f : Noting (Outcome β)).Answers (do return f (← rule)) := by
  intro finish unread
  obtain ⟨checks, failed, same⟩ := answers finish unread
  refine ⟨checks, ?_, fun notes => ?_⟩
  · simp [failed]
  · simp [same, Outcome.map]

/-! ## Checks -/

section Require

variable {check : Check} {met unmet behind : Noting α} {due : Due} {token : Token} {value : α}
variable {reading : Reading α}

/-- Nothing but the check is noted where it is passed. -/
theorem require_makes (passed : check.passed = true) (makes : met.Makes finish unread reading) :
    (require check met unmet).Makes finish unread reading := by
  obtain ⟨checks, failed, same⟩ := makes
  refine ⟨check :: checks, (failures_cons_of_passed passed checks).trans failed, fun notes => ?_⟩
  simp [require, test, passed, same, Notes.behind_cons_of_passed passed]

/-- Where the check is not passed, flagging it makes up for the failure. -/
theorem require_flag_makes (failed : check.passed = false) (makes : behind.Makes finish unread reading) :
    (require check met (do flag check; behind)).Makes finish unread
      ⟨reading.value, check.problem :: reading.raised, reading.rest⟩ := by
  obtain ⟨checks, others, same⟩ := makes
  refine ⟨check :: checks, ?_, fun notes => ?_⟩
  · rw [failures_cons_of_failed failed, others]
  · simp [require, test, failed, flag, same, Notes.behind_cons_of_failed failed]

theorem next_makes {behind : Check → Noting α}
    (makes : (behind ⟨due, lookahead finish unread, unread.isEmpty⟩).Makes finish unread reading) :
    (next due >>= behind).Makes finish unread reading := makes

theorem expect_makes {met : Token → Noting α} {unmet : Check → Noting α}
    (present : due.isMetBy token = true) (makes : (met token).Makes finish unread reading) :
    (expect due met unmet).Makes finish (token :: unread) reading := by
  have advanced : (do advance; met token).Makes finish (token :: unread) reading := makes
  have passed : (⟨due, token, false⟩ : Check).passed = true := present
  unfold expect
  exact next_makes (require_makes passed advanced)

theorem expect_flag_makes {met : Token → Noting α} {raised : List Problem} {rest : List Token}
    (check : Check) (here : check = ⟨due, lookahead finish unread, unread.isEmpty⟩)
    (failed : check.passed = false) (makes : behind.Makes finish unread ⟨value, raised, rest⟩) :
    (expect due met fun check => do flag check; behind).Makes finish unread
      ⟨value, check.problem :: raised, rest⟩ := by
  subst here
  unfold expect
  exact next_makes (require_flag_makes failed makes)

end Require

section Recover

variable {check : Check} {met unmet : Noting (Outcome α)} {due : Due} {token : Token}
variable {reading : Reading α}

theorem require_reports (passed : check.passed = true) (reports : met.Reports finish unread reading) :
    (require check met unmet).Reports finish unread reading := by
  obtain ⟨checks, failed, same⟩ := reports
  refine ⟨check :: checks, (failures_cons_of_passed passed checks).trans failed, fun notes => ?_⟩
  simp [require, test, passed, same, Notes.behind_cons_of_passed passed, Notes.tested]

theorem reject_reports {value : α} (failed : check.passed = false) :
    (reject value check).Reports finish unread ⟨value, [check.problem], unread⟩ := by
  refine ⟨[check], failures_cons_of_failed failed [], fun notes => ?_⟩
  simp [reject, test, recover, Notes.behind_cons_of_failed failed, Notes.tested, Notes.record, Notes.keep,
    Check.diagnostic]

/-- Where the check is not passed, its failure is the outcome. -/
theorem require_recover_reports {value : α} (failed : check.passed = false) :
    (require check met (recover value check)).Reports finish unread ⟨value, [check.problem], unread⟩ := by
  have rejected : (reject value check).Reports finish unread _ := reject_reports failed
  obtain ⟨checks, problem, same⟩ := rejected
  refine ⟨checks, problem, fun notes => ?_⟩
  rw [← same notes]
  simp [require, reject, test, failed]

theorem next_reports {behind : Check → Noting (Outcome α)}
    (reports : (behind ⟨due, lookahead finish unread, unread.isEmpty⟩).Reports finish unread reading) :
    (next due >>= behind).Reports finish unread reading := reports

theorem expect_reports {met : Token → Noting (Outcome α)} {unmet : Check → Noting (Outcome α)}
    (present : due.isMetBy token = true) (reports : (met token).Reports finish unread reading) :
    (expect due met unmet).Reports finish (token :: unread) reading := by
  have advanced : (do advance; met token).Reports finish (token :: unread) reading := reports
  have passed : (⟨due, token, false⟩ : Check).passed = true := present
  unfold expect
  exact next_reports (require_reports passed advanced)

theorem expect_recover_reports {met : Token → Noting (Outcome α)} {value : α} (check : Check)
    (here : check = ⟨due, lookahead finish unread, unread.isEmpty⟩) (failed : check.passed = false) :
    (expect due met (recover value)).Reports finish unread ⟨value, [check.problem], unread⟩ := by
  subst here
  unfold expect
  exact next_reports (require_recover_reports failed)

end Recover

/-! ## Loops -/

theorem many_follows {item : Token → Noting α} {item' : Token → Rule α}
    (items : ∀ token, (item token).Follows (item' token)) (stops : Token → Bool) :
    (many stops item).Follows (Rule.many stops item') := by
  intro finish unread
  change Makes _ finish unread (Rule.manyRead stops item' finish unread)
  fun_induction Rule.manyRead stops item' finish unread with
  | case1 => exact ⟨[], rfl, fun notes => by simp [many, manyRead]⟩
  | case2 token unread stop => exact ⟨[], rfl, fun notes => by simp [many, manyRead, stop]⟩
  | case3 token unread go one others ih =>
    refine Makes.of_read_eq ?_ (read_many_item (Bool.eq_false_iff.mpr go) item finish unread)
    refine (items token finish unread).bind ?_
    exact ih.map (one.value :: ·)

theorem chainFrom_makes {operand : Noting Expression} {operand' : Rule Expression}
    (operands : operand.Follows operand') (level : Level) (finish : Position) (left : Expression)
    (unread : List Token) :
    (chainFrom level operand left).Makes finish unread
      (Grammar.chainRead level operand' finish left unread) := by
  fun_induction Grammar.chainRead level operand' finish left unread with
  | case1 => exact ⟨[], rfl, fun notes => by simp [chainFrom, chainRead]⟩
  | case2 left token unread other => exact ⟨[], rfl, fun notes => by simp [chainFrom, chainRead, other]⟩
  | case3 left token unread operator found right whole ih =>
    refine Makes.of_read_eq ?_ (read_chainFrom_operator found operand left finish unread)
    exact (operands finish unread).bind ih

theorem chain_answers {operand : Noting (Outcome Expression)} {operand' : Rule Expression}
    (operands : operand.Answers operand') (level : Level) :
    (chain level operand).Answers (Grammar.chain level operand') :=
  (operands.absorb.bind fun left finish unread =>
    chainFrom_makes operands.absorb level finish left unread).withSlot

/-! ## Rules -/

/-- A rule that reads a single token for its text. -/
theorem expect_answers_of_picks {rule : Rule α} {kind : Token.Kind} {value : String → α} {none : α}
    {atEnd fault : Fault} (picks : rule.Picks kind value none atEnd fault) {due : Due}
    (wants : ∀ token, due.isMetBy token = (token.kind == kind))
    (faults : ∀ token, (⟨due, token, true⟩ : Check).fault = atEnd ∧
      (⟨due, token, false⟩ : Check).fault = fault) :
    (expect due (fun token => return ⟨value token.text, Option.none⟩) (recover none)).Answers rule := by
  intro finish unread
  cases unread with
  | nil =>
    rw [picks.read_nil, ← (faults (Token.endOfInput finish)).1]
    exact expect_recover_reports ⟨due, _, true⟩ rfl rfl
  | cons token unread =>
    rw [picks.read_cons]
    split
    next same => exact expect_reports (by simp [wants, same]) (pure_answers _ finish unread)
    next other =>
      rw [← (faults token).2]
      exact expect_recover_reports ⟨due, token, false⟩ rfl (by simp [Check.passed, wants, other])

theorem primary_answers : primary.Answers Grammar.primary :=
  expect_answers_of_picks primary_picks (fun _ => rfl) fun _ => ⟨rfl, rfl⟩

theorem multiplicative_answers : multiplicative.Answers Grammar.multiplicative :=
  chain_answers primary_answers .product

theorem additive_answers : additive.Answers Grammar.additive :=
  chain_answers multiplicative_answers .sum

theorem parameter_answers : parameter.Answers Grammar.parameter :=
  expect_answers_of_picks parameter_picks (fun _ => rfl) fun _ => ⟨rfl, rfl⟩

theorem functionName_follows : functionName.Follows Grammar.functionName := by
  intro finish unread
  cases unread with
  | nil => exact expect_flag_makes ⟨.name, _, true⟩ rfl rfl (pure_follows none finish [])
  | cons token unread =>
    rw [read_functionName_cons]
    split
    next name => exact expect_makes (by simp [Due.isMetBy, name]) (pure_follows _ finish unread)
    next other =>
      exact expect_flag_makes ⟨.name, token, false⟩ rfl (by simp [Check.passed, Due.isMetBy, other])
        (pure_follows none finish _)

theorem word_follows {due : Due} {fault : Fault}
    (faults : ∀ token atEnd, (⟨due, token, atEnd⟩ : Check).fault = fault) :
    (word due).Follows (Rule.expect due.isMetBy fault) := by
  intro finish unread
  cases unread with
  | nil =>
    rw [Rule.read_expect_nil, ← faults (Token.endOfInput finish) true]
    exact expect_flag_makes ⟨due, _, true⟩ rfl rfl (pure_follows () finish [])
  | cons token unread =>
    rw [Rule.read_expect_cons]
    split
    next present => exact expect_makes present (pure_follows () finish unread)
    next other =>
      rw [← faults token false]
      exact expect_flag_makes ⟨due, token, false⟩ rfl (by simp [Check.passed, other])
        (pure_follows () finish _)

theorem skipParameters_follows : (silently skipParameters).Follows skipParameters :=
  silently_follows fun _ _ => rfl

/-- What stands behind a name: whether it is a comma. -/
def separatorRule : Rule Bool := do
  if ← Rule.eat (isPunctuation ",") then return true
  else
    unless ← Rule.eat (isPunctuation ")") do
      Rule.raise .expectedSeparator
      skipParameters
    return false

theorem separator_follows : separator.Follows separatorRule := by
  have skipped : (do silently skipParameters; return false : Noting Bool).Follows
      (do skipParameters; return false) :=
    skipParameters_follows.bind fun _ => pure_follows false
  intro finish unread
  cases unread with
  | nil => exact expect_flag_makes ⟨.separator, _, true⟩ rfl rfl (skipped finish [])
  | cons token unread =>
    by_cases comma : isPunctuation "," token = true
    · have same : separatorRule.read finish (token :: unread) = ⟨true, [], unread⟩ := by
        simp [separatorRule, comma]
      rw [same, ← comma]
      exact expect_makes (by simp [Due.isMetBy, comma]) (pure_follows _ finish unread)
    · by_cases closes : isPunctuation ")" token = true
      · have same : separatorRule.read finish (token :: unread) = ⟨false, [], unread⟩ := by
          simp [separatorRule, comma, closes]
        rw [same, ← Bool.eq_false_iff.mpr comma]
        exact expect_makes (by simp [Due.isMetBy, closes]) (pure_follows _ finish unread)
      · have same : separatorRule.read finish (token :: unread) =
            ⟨false, [⟨.expectedSeparator, token⟩], skipList (token :: unread)⟩ := by
          simp [separatorRule, comma, closes]
        rw [same]
        exact expect_flag_makes ⟨.separator, token, false⟩ rfl
          (by simp [Check.passed, Due.isMetBy, comma, closes]) (skipped finish (token :: unread))

/-- A parameter, and whether there is a comma behind it. -/
def listedRule : Rule (Parameter × Bool) := do
  let parameter ← Grammar.parameter
  match parameter with
  | .named _ => return (parameter, ← separatorRule)
  | .unsupported =>
    skipParameters
    return (parameter, false)

theorem listed_follows : listed.Follows listedRule := by
  refine parameter_answers.absorb.bind fun parameter => ?_
  cases parameter with
  | named name => exact separator_follows.bind fun more => pure_follows (Parameter.named name, more)
  | unsupported => exact skipParameters_follows.bind fun _ => pure_follows (Parameter.unsupported, false)

/-- Where no comma follows a name, the list ends. -/
theorem read_lastParameter_eq (finish : Position) (unread : List Token)
    (ends : ∀ name comma rest, unread = name :: comma :: rest → name.kind = .identifier →
      isPunctuation "," comma = false) :
    ∃ last raised rest, listedRule.read finish unread = ⟨(last, false), raised, rest⟩ ∧
      lastParameter.read finish unread = ⟨[last], raised, rest⟩ := by
  match unread with
  | [] => exact ⟨_, _, _, rfl, rfl⟩
  | token :: unread =>
    by_cases name : token.kind = .identifier
    · match unread with
      | [] =>
        simp [listedRule, lastParameter, separatorRule, name]
      | comma :: rest =>
        have other := ends token comma rest rfl name
        by_cases closes : isPunctuation ")" comma = true
        · simp [listedRule, lastParameter, separatorRule, name, other, closes]
        · simp [listedRule, lastParameter, separatorRule, name, other, closes]
    · simp [listedRule, lastParameter, name]

theorem parameterList_makes_last (finish : Position) (unread : List Token)
    (ends : ∀ name comma rest, unread = name :: comma :: rest → name.kind = .identifier →
      isPunctuation "," comma = false) :
    parameterList.Makes finish unread (lastParameter.read finish unread) := by
  obtain ⟨last, raised, rest, read, same⟩ := read_lastParameter_eq finish unread ends
  have one := listed_follows finish unread
  rw [read] at one
  rw [same, ← List.append_nil raised]
  refine Makes.of_read_eq ?_ (read_parameterList finish unread)
  refine one.bind ?_
  exact pure_follows [last] finish rest

theorem parameterList_follows : parameterList.Follows Grammar.parameterList := by
  intro finish unread
  change Makes _ finish unread (Grammar.parameterListRead finish unread)
  fun_induction Grammar.parameterListRead finish unread with
  | case1 name comma unread separated others ih =>
    obtain ⟨identifier, separates⟩ : name.kind = .identifier ∧ isPunctuation "," comma = true := by
      simpa using separated
    have read : listedRule.read finish (name :: comma :: unread) =
        ⟨(.named name.text, true), [], unread⟩ := by
      simp [listedRule, separatorRule, identifier, separates]
    have one := listed_follows finish (name :: comma :: unread)
    rw [read] at one
    refine Makes.of_read_eq ?_ (read_parameterList finish _)
    refine one.bind ?_
    exact ih.map (Parameter.named name.text :: ·)
  | case2 name comma unread other =>
    apply parameterList_makes_last
    rintro _ _ _ ⟨⟩ identifier
    simpa [identifier] using other
  | case3 token => exact parameterList_makes_last finish _ (by simp)
  | case4 => exact parameterList_makes_last finish _ (by simp)

theorem parameterSection_follows : parameterSection.Follows Grammar.parameterSection := by
  intro finish unread
  cases unread with
  | nil => exact expect_flag_makes ⟨.opening, _, true⟩ rfl rfl (pure_follows [] finish [])
  | cons token unread =>
    have list : (do if ← silently (Rule.eat (isPunctuation ")")) then return [] else parameterList :
        Noting (List Parameter)).Follows
          (do if ← Rule.eat (isPunctuation ")") then return [] else Grammar.parameterList) := by
      refine (silently_follows fun finish unread => ?_).bind fun closed => ?_
      · cases unread with
        | nil => rfl
        | cons token unread =>
          rw [Rule.read_eat_cons]
          split <;> rfl
      · cases closed with
        | false => exact parameterList_follows
        | true => exact pure_follows []
    by_cases opens : isPunctuation "(" token = true
    · have same : Grammar.parameterSection.read finish (token :: unread) =
          (do if ← Rule.eat (isPunctuation ")") then return [] else Grammar.parameterList :
            Rule (List Parameter)).read finish unread := by
        simp [Grammar.parameterSection, opens]
      rw [same]
      exact expect_makes opens (list finish unread)
    · have same : Grammar.parameterSection.read finish (token :: unread) =
          ⟨[], [⟨.expectedOpening, token⟩], token :: unread⟩ := by
        simp [Grammar.parameterSection, opens]
      rw [same]
      exact expect_flag_makes ⟨.opening, token, false⟩ rfl (by simp [Check.passed, Due.isMetBy, opens])
        (pure_follows [] finish _)

variable {declaration : Token → Noting (Outcome Statement)} {declaration' : Token → Rule Statement}

theorem statementAfter_answers
    (declarations : ∀ opening, (declaration opening).Answers (declaration' opening)) (first : Token) :
    (statementAfter declaration first).Answers (Grammar.statementAfter declaration' first) := by
  intro finish unread
  unfold Grammar.statementAfter
  split
  next returns =>
    have passed : (⟨.statement, first, false⟩ : Check).passed = true := by
      simp [Check.passed, Due.isMetBy, returns]
    refine require_reports passed ?_
    rw [if_pos returns]
    exact additive_answers.map Statement.returns finish unread
  next noReturn =>
    split
    next begins =>
      have passed : (⟨.statement, first, false⟩ : Check).passed = true := by
        simp [Check.passed, Due.isMetBy, begins]
      refine require_reports passed ?_
      rw [if_neg noReturn]
      exact declarations first finish unread
    next noFunc =>
      have failed : (⟨.statement, first, false⟩ : Check).passed = false := by
        simp [Check.passed, Due.isMetBy, noReturn, noFunc]
      exact require_recover_reports failed

/-- By induction on how deep declarations may be nested. -/
theorem declarationAfter_answers (nesting : Nat) (opening : Token) :
    (declarationAfter nesting opening).Answers (Grammar.declarationAfter nesting opening) := by
  induction nesting generalizing opening with
  | zero =>
    intro finish unread
    exact reject_reports rfl
  | succ left ih =>
    have body : (many (isWord "endfunc") fun first =>
        absorb (statementAfter (declarationAfter left) first)).Follows
          (Rule.many (isWord "endfunc") (Grammar.statementAfter (Grammar.declarationAfter left))) :=
      many_follows (fun first => (statementAfter_answers ih first).absorb) _
    have parts := functionName_follows.bind fun name => parameterSection_follows.bind fun parameters =>
      (word_follows (fun _ _ => rfl) : (word .start).Follows _).bind fun _ => body.bind fun body =>
        (word_follows (fun _ _ => rfl) : (word .closing).Follows _).bind fun _ =>
          pure_follows (Statement.function name parameters body)
    intro finish unread
    exact require_reports (by simp [Check.passed, Due.isMetBy]) (parts.withSlot finish unread)

theorem outerStatementAfter_answers (first : Token) :
    (outerStatementAfter first).Answers (Grammar.outerStatementAfter first) :=
  statementAfter_answers (declarationAfter_answers maxNesting) first

theorem function_answers : function.Answers Grammar.function := by
  intro finish unread
  cases unread with
  | nil => exact expect_recover_reports ⟨.func, _, true⟩ rfl rfl
  | cons opening unread =>
    by_cases begins : isWord "func" opening = true
    · have same : Grammar.function.read finish (opening :: unread) =
          (Grammar.declarationAfter maxNesting opening).read finish unread := by
        simp [Grammar.function, begins]
      rw [same]
      exact expect_reports begins (declarationAfter_answers maxNesting opening finish unread)
    · have same : Grammar.function.read finish (opening :: unread) =
          ⟨.unsupportedFunction, [⟨.expectedFunc, opening⟩], opening :: unread⟩ := by
        simp [Grammar.function, begins]
      rw [same]
      exact expect_recover_reports ⟨.func, opening, false⟩ rfl
        (by simp [Check.passed, Due.isMetBy, begins])

theorem statement_answers : statement.Answers Grammar.statement := by
  intro finish unread
  cases unread with
  | nil =>
    have rejected : (reject Statement.unsupported ⟨.statement, Token.endOfInput finish, true⟩).Reports
        finish [] _ := reject_reports rfl
    exact rejected
  | cons first unread => exact outerStatementAfter_answers first finish unread

theorem program_answers : program.Answers Grammar.program :=
  ((many_follows (fun first => (outerStatementAfter_answers first).absorb) _).bind fun statements =>
    pure_follows (Program.mk statements)).withSlot

end Noting

end FuncLang.Grammar
