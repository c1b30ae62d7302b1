import FuncLang.Proofs.Grammar.Contract
import FuncLang.Proofs.Grammar.Statement
import FuncLang.Proofs.Program.Spelling
import FuncLang.Proofs.Tree.Readback

/-! # Accounting for tokens

Where each token goes that a rule reads, however broken the source is: it is a word of the tree, it is
one that no tree shows, or it is a stray token, for which a placeholder stands and a problem is raised.
Nothing is read twice or passed over. The exception are parameter lists that end early, the rest of
which is skipped; so a rule accounts for its tokens if it raises neither of the two faults that make
it skip.
-/

namespace FuncLang

open Grammar (isWord isPunctuation)

namespace Token

/-- The word that the token is in a tree, the letters of a keyword in lower case. -/
def spoken (token : Token) : String := token.normalized.text

/-- Whether trees do not show the token: punctuation, and the keywords around a body. -/
def isSilent (token : Token) : Bool :=
  token.kind == .punctuation || isWord "do" token || isWord "endfunc" token

variable {token : Token}

theorem isSilent_of_isPunctuation {text : String} (found : isPunctuation text token = true) :
    token.isSilent = true := by
  simp only [isPunctuation, Token.is, Bool.and_eq_true] at found
  simp [isSilent, found.1]

theorem isSilent_of_isWord {word : String} (around : word ∈ ["do", "endfunc"])
    (found : isWord word token = true) : token.isSilent = true := by
  rcases List.mem_pair.mp around with rfl | rfl <;> simp [isSilent, found]

/-- The keywords with which statements begin are the words that they are written as. -/
theorem spoken_of_isWord {word : String} (found : isWord word token = true)
    (begins : word ∈ ["return", "func"]) : token.spoken = word ∧ token.isSilent = false := by
  have table : ∀ word ∈ ["return", "func"], foldCase word.toList = word.toList ∧
      ∀ silent ∈ ["do", "endfunc"], foldCase word.toList ≠ foldCase silent.toList := by decide
  obtain ⟨lower, other⟩ := table word begins
  refine ⟨congrArg Lexeme.text ((normalized_eq_word_iff lower).mpr found), ?_⟩
  simp [isSilent, Grammar.kind_of_isWord found, Grammar.isWord_unique found (other "do" (by decide)),
    Grammar.isWord_unique found (other "endfunc" (by decide))]

/-- Names, literals and operators are the words that they are written as. -/
theorem spoken_of_kind (shown : token.kind ∈ [.identifier, .integer, .operator]) :
    token.spoken = token.text ∧ token.isSilent = false := by
  have noWord : token.kind ≠ .keyword := by
    intro keyword
    simp [keyword] at shown
  have noMark : token.kind ≠ .punctuation := by
    intro mark
    simp [mark] at shown
  refine ⟨by rw [spoken, (normalized_eq_iff noWord).mpr ⟨rfl, rfl⟩], ?_⟩
  simp [isSilent, isWord, isKeyword, noMark, noWord]

end Token

/-- Where tokens go: the silent ones nowhere, each other one to the stray tokens or the words. A stray
token may be one that is silent where it is due. -/
inductive Accounted : List Token → List Token → List String → Prop
  | nil : Accounted [] [] []
  | silent {token : Token} {tokens strays : List Token} {words : List String}
      (silent : token.isSilent = true) (others : Accounted tokens strays words) :
      Accounted (token :: tokens) strays words
  | stray {token : Token} {tokens strays : List Token} {words : List String}
      (others : Accounted tokens strays words) : Accounted (token :: tokens) (token :: strays) words
  | word {token : Token} {tokens strays : List Token} {words : List String}
      (shown : token.isSilent = false) (others : Accounted tokens strays words) :
      Accounted (token :: tokens) strays (token.spoken :: words)

namespace Accounted

variable {tokens strays tokens' strays' : List Token} {words words' : List String}

theorem append (front : Accounted tokens strays words) (back : Accounted tokens' strays' words') :
    Accounted (tokens ++ tokens') (strays ++ strays') (words ++ words') := by
  induction front with
  | nil => exact back
  | silent silent _ ih => exact .silent silent ih
  | stray _ ih => exact .stray ih
  | word shown _ ih => exact .word shown ih

/-- A name, a literal or an operator in front. -/
theorem shown {token : Token} (kind : token.kind ∈ [.identifier, .integer, .operator])
    (others : Accounted tokens strays words) :
    Accounted (token :: tokens) strays (token.text :: words) := by
  obtain ⟨spoken, shown⟩ := Token.spoken_of_kind kind
  exact spoken ▸ .word shown others

theorem strays_subset (accounted : Accounted tokens strays words) : strays ⊆ tokens := by
  induction accounted with
  | nil => exact List.Subset.refl []
  | silent _ _ ih | word _ _ ih => exact List.subset_cons_of_subset _ ih
  | stray _ ih => exact List.cons_subset_cons _ ih

/-- When no token occurs twice, the words are what is left when the silent tokens and the stray ones
are deleted. -/
theorem words_eq (accounted : Accounted tokens strays words) (distinct : tokens.Nodup) :
    words = (tokens.filter fun token => !token.isSilent && decide (token ∉ strays)).map
      Token.spoken := by
  induction accounted with
  | nil => rfl
  | silent silent _ ih =>
    rw [List.filter_cons_of_neg (by simp [silent])]
    exact ih (List.nodup_cons.mp distinct).2
  | @stray token tokens strays words _ ih =>
    obtain ⟨fresh, distinct⟩ := List.nodup_cons.mp distinct
    rw [List.filter_cons_of_neg (by simp), ih distinct]
    refine congrArg (List.map Token.spoken) (List.filter_congr fun other member => ?_)
    have differs : other ≠ token := fun same => fresh (same ▸ member)
    simp [differs]
  | word shown others ih =>
    obtain ⟨fresh, distinct⟩ := List.nodup_cons.mp distinct
    have known := fun member => fresh (others.strays_subset member)
    rw [List.filter_cons_of_pos (by simpa [shown] using known), List.map_cons, ← ih distinct]

end Accounted

namespace Grammar

/-- Whether a placeholder stands for the token at which the fault shows. -/
def Fault.isStray : Fault → Bool
  | .unsupportedStatement | .unrecognizedCharacter => true
  | _ => false

/-- Whether the rest of a parameter list is skipped behind the fault. -/
def Fault.skips : Fault → Bool
  | .expectedParameter | .expectedSeparator => true
  | _ => false

/-- The stray tokens among those at which problems show. -/
def strays (raised : List Problem) : List Token := (raised.filter (·.fault.isStray)).map (·.token)

/-- Whether nothing is skipped. -/
def Unskipped (raised : List Problem) : Prop := ∀ problem ∈ raised, problem.fault.skips = false

@[simp] theorem strays_append (raised others : List Problem) :
    strays (raised ++ others) = strays raised ++ strays others := by
  simp [strays]

theorem unskipped_append {raised others : List Problem} :
    Unskipped (raised ++ others) ↔ Unskipped raised ∧ Unskipped others :=
  List.forall_mem_append

variable {α β γ : Type} {finish : Position} {First Tells : α → List String → Prop}

/-- If nothing is skipped, the tokens that were read are accounted for, by words that the value tells. -/
def Account (Tells : α → List String → Prop) (read : List Token) (reading : Reading α) : Prop :=
  Unskipped reading.raised →
    ∃ words, Accounted read (strays reading.raised) words ∧ Tells reading.value words

/-- Two readings are accounted for one after the other. -/
theorem Account.append {front back : List Token} {one : Reading α} {two : Reading β}
    {Second : β → List String → Prop} {Both : γ → List String → Prop} {value : γ} {rest : List Token}
    (first : Account First front one) (second : Account Second back two)
    (tells : ∀ {words others}, First one.value words → Second two.value others →
      Both value (words ++ others)) :
    Account Both (front ++ back) ⟨value, one.raised ++ two.raised, rest⟩ := by
  intro unskipped
  obtain ⟨unskippedOne, unskippedTwo⟩ := unskipped_append.mp unskipped
  obtain ⟨words, accounted, tellsOne⟩ := first unskippedOne
  obtain ⟨others, accountedTwo, tellsTwo⟩ := second unskippedTwo
  exact ⟨words ++ others, strays_append _ _ ▸ accounted.append accountedTwo, tells tellsOne tellsTwo⟩

/-- One more word in front of what was read. -/
theorem Account.word {token : Token} {word : String} {read : List Token} {reading : Reading α}
    (account : Account First read reading) (spoken : token.spoken = word ∧ token.isSilent = false)
    (tells : ∀ {words}, First reading.value words → Tells reading.value (word :: words)) :
    Account Tells (token :: read) reading := by
  intro unskipped
  obtain ⟨rfl, shown⟩ := spoken
  obtain ⟨words, accounted, known⟩ := account unskipped
  exact ⟨token.spoken :: words, .word shown accounted, tells known⟩

namespace Rule

/-- Only where nothing is skipped there is something to show. -/
theorem keeps_account {rule : Rule α} (accounted : ∀ unread,
      (∀ token ∈ unread, token.lexeme.IsValid) → Unskipped (rule.read finish unread).raised →
        ∃ read, unread = read ++ (rule.read finish unread).rest ∧
          ∃ words, Accounted read (strays (rule.read finish unread).raised) words ∧
            Tells (rule.read finish unread).value words) :
    rule.Keeps finish (Account Tells) := by
  intro unread valid
  by_cases unskipped : Unskipped (rule.read finish unread).raised
  · obtain ⟨read, same, account⟩ := accounted unread valid unskipped
    exact ⟨read, same, fun _ => account⟩
  · obtain ⟨read, same⟩ := rule.rest_suffix finish unread
    exact ⟨read, same.symm, fun impossible => absurd impossible unskipped⟩

theorem pure_account {value : α} (tells : Tells value []) :
    (pure value : Rule α).Keeps finish (Account Tells) :=
  fun _ _ => ⟨[], rfl, fun _ => ⟨[], .nil, tells⟩⟩

/-- The words of the first rule stand in front of those of the next one. -/
theorem bind_account {rule : Rule α} {next : α → Rule β} {Tells : β → List String → Prop}
    (first : rule.Keeps finish (Account First))
    (behind : ∀ value words, First value words →
      (next value).Keeps finish (Account fun result others => Tells result (words ++ others))) :
    (rule >>= next).Keeps finish (Account Tells) := by
  refine keeps_account fun unread valid unskipped => ?_
  rw [read_bind] at unskipped ⊢
  obtain ⟨unskippedFirst, unskippedBehind⟩ := unskipped_append.mp unskipped
  obtain ⟨front, sameFront, accountFirst⟩ := first unread valid
  obtain ⟨words, accounted, tells⟩ := accountFirst unskippedFirst
  obtain ⟨back, sameBack, accountBehind⟩ :=
    behind _ words tells _ (isValid_of_mem_rest sameFront valid)
  obtain ⟨others, accountedBehind, tellsBehind⟩ := accountBehind unskippedBehind
  refine ⟨front ++ back, ?_, words ++ others, ?_, tellsBehind⟩
  · rw [List.append_assoc, ← sameBack, ← sameFront]
  · rw [strays_append]
    exact accounted.append accountedBehind

/-- A silent token that is read where it stands. -/
theorem eat_account {wanted : Token → Bool}
    (silent : ∀ {token}, wanted token = true → token.isSilent = true) :
    (eat wanted).Keeps finish (Account fun _ words => words = []) := by
  intro unread _
  cases unread with
  | nil => exact ⟨[], rfl, fun _ => ⟨[], .nil, rfl⟩⟩
  | cons token unread =>
    rw [read_eat_cons]
    split
    next found => exact ⟨[token], rfl, fun _ => ⟨[], .silent (silent found) .nil, rfl⟩⟩
    next => exact ⟨[], rfl, fun _ => ⟨[], .nil, rfl⟩⟩

/-- Nothing is read where a fault is raised, and the next token is not stray. -/
theorem raise_account {fault : Fault} (harmless : fault.isStray = false) :
    (raise fault).Keeps finish (Account fun _ words => words = []) := by
  intro unread _
  have none : strays [⟨fault, lookahead finish unread⟩] = [] := by simp [strays, harmless]
  exact ⟨[], rfl, fun _ => ⟨[], by rw [read_raise, none]; exact .nil, rfl⟩⟩

/-- A silent token, the lack of which is not the fault of another one. -/
theorem expect_account {wanted : Token → Bool} {fault : Fault}
    (silent : ∀ {token}, wanted token = true → token.isSilent = true)
    (harmless : fault.isStray = false) :
    (expect wanted fault).Keeps finish (Account fun _ words => words = []) := by
  refine bind_account (eat_account silent) ?_
  rintro (_ | _) _ rfl
  · exact raise_account harmless
  · exact pure_account rfl

end Rule

/-! ## Expressions -/

/-- A literal is its digits, and a hole stands for no token. -/
theorem primary_account :
    primary.Keeps finish (Account fun value words => words = value.toTree.readback) := by
  refine primary_picks.keeps (fun token _ _ integer _ => ?_) (fun _ _ _ => ?_) (fun _ _ _ => ?_)
  · exact ⟨[token.text], .shown (by simp [integer]) .nil, rfl⟩
  · exact ⟨[], .nil, rfl⟩
  · exact ⟨[], .nil, rfl⟩

/-- An operator stands between the words of its operands. -/
theorem chain_account {level : Level} {operand : Rule Expression}
    (operands : operand.Keeps finish (Account fun value words => words = value.toTree.readback)) :
    (chain level operand).Keeps finish
      (Account fun value words => words = value.toTree.readback) := by
  refine chain_keeps operands id ?_
  intro before after left right token operator accountLeft found accountRight _
  obtain ⟨-, kind, text⟩ := Level.operator?_eq_some found
  have spoken : token.spoken = operator.symbol ∧ token.isSilent = false :=
    text ▸ Token.spoken_of_kind (by simp [kind])
  have behind : Account (fun value words => words = operator.symbol :: value.toTree.readback)
      (token :: after) right := accountRight.word spoken (congrArg (operator.symbol :: ·))
  refine accountLeft.append behind ?_
  rintro _ _ rfl rfl
  exact (Tree.readback_binary ..).symm

theorem expression_account :
    expression.Keeps finish (Account fun value words => words = value.toTree.readback) :=
  chain_account (chain_account primary_account)

/-! ## The header of a declaration -/

/-- A name is a word, and where there is none nothing is read. -/
theorem functionName_account :
    functionName.Keeps finish (Account fun name words => words = Tree.nameWords (name.getD "")) := by
  refine functionName_picks.keeps (fun token _ valid identifier _ => ?_) (fun _ _ _ => ?_)
    (fun _ _ _ => ?_)
  · have some : token.text ≠ "" := by
      obtain ⟨⟨c, cs, same, -⟩, -⟩ := Token.isFreeName valid identifier
      intro none
      simp [none] at same
    exact ⟨[token.text], .shown (by simp [identifier]) .nil, by simp [Tree.nameWords, some]⟩
  · exact ⟨[], .nil, rfl⟩
  · exact ⟨[], .nil, rfl⟩

/-- The last name of a list and the parenthesis behind it; without them the rest is skipped. -/
theorem lastParameter_account :
    lastParameter.Keeps finish
      (Account fun parameters words => words = Tree.readbackAll (parameters.map Parameter.toTree)) := by
  refine Rule.keeps_account fun unread _ unskipped => ?_
  match unread with
  | [] => simp [lastParameter, Unskipped, Fault.skips] at unskipped
  | [name] =>
    by_cases identifier : name.kind = .identifier <;>
      simp [lastParameter, Unskipped, Fault.skips, identifier] at unskipped
  | name :: closing :: unread =>
    by_cases identifier : name.kind = .identifier
    · by_cases closes : isPunctuation ")" closing = true
      · have silent := Token.isSilent_of_isPunctuation closes
        have accounted : Accounted [name, closing] [] [name.text] :=
          .shown (by simp [identifier]) (.silent silent .nil)
        refine ⟨[name, closing], by simp [lastParameter, identifier, closes], [name.text], ?_, ?_⟩
        · simpa [lastParameter, identifier, closes, strays] using accounted
        · simp [lastParameter, identifier, closes, Tree.readbackAll]
      · simp [lastParameter, Unskipped, Fault.skips, identifier, closes] at unskipped
    · simp [lastParameter, Unskipped, Fault.skips, identifier] at unskipped

/-- Names with commas between them, up to the last one. -/
theorem parameterList_account :
    parameterList.Keeps finish
      (Account fun parameters words => words = Tree.readbackAll (parameters.map Parameter.toTree)) := by
  intro unread
  change _ → ∃ read, unread = read ++ (parameterListRead finish unread).rest ∧
    Account _ read (parameterListRead finish unread)
  fun_induction parameterListRead finish unread with
  | case1 name comma unread separated others ih =>
    intro valid
    obtain ⟨read, same, account⟩ := ih fun token member =>
      valid token (List.mem_cons_of_mem _ (List.mem_cons_of_mem _ member))
    simp only [Bool.and_eq_true, beq_iff_eq] at separated
    refine ⟨name :: comma :: read, by simpa using same, fun unskipped => ?_⟩
    obtain ⟨_, accounted, rfl⟩ := account unskipped
    have silent := Token.isSilent_of_isPunctuation separated.2
    exact ⟨_, .shown (by simp [separated.1]) (.silent silent accounted), rfl⟩
  | case2 => exact lastParameter_account _
  | case3 => exact lastParameter_account _
  | case4 => exact lastParameter_account _

/-- The parentheses around the parameters are silent; without an opening one nothing is read. -/
theorem parameterSection_account :
    parameterSection.Keeps finish
      (Account fun parameters words => words = Tree.readbackAll (parameters.map Parameter.toTree)) := by
  have opened : (Rule.eat (isPunctuation "(")).Keeps finish (Account fun _ words => words = []) :=
    Rule.eat_account Token.isSilent_of_isPunctuation
  have closed : (Rule.eat (isPunctuation ")")).Keeps finish (Account fun _ words => words = []) :=
    Rule.eat_account Token.isSilent_of_isPunctuation
  refine Rule.bind_account opened ?_
  rintro (_ | _) _ rfl
  · exact fun _ _ => ⟨[], rfl, fun _ => ⟨[], .nil, rfl⟩⟩
  · refine Rule.bind_account closed ?_
    rintro (_ | _) _ rfl
    · exact parameterList_account
    · exact Rule.pure_account rfl

/-! ## Statements -/

/-- The first token of a statement is accounted for with what follows it. -/
def Rule.Accounts (rule : Rule Statement) (finish : Position) (first : Token) : Prop :=
  rule.Keeps finish fun read reading =>
    Account (fun statement words => words = statement.toTree.readback) (first :: read) reading

/-- The keyword with which a statement begins is its first word. -/
theorem Rule.accounts_of_isWord {rule : Rule Statement} {first : Token} {word : String}
    (found : isWord word first = true) (begins : word ∈ ["return", "func"])
    (behind : rule.Keeps finish
      (Account fun statement words => word :: words = statement.toTree.readback)) :
    rule.Accounts finish first := by
  exact behind.imp fun account => account.word (Token.spoken_of_isWord found begins) id

variable {declaration : Token → Rule Statement}

/-- A token with which no statement begins is stray. -/
theorem statementAfter_accounts
    (declarations : ∀ opening, (declaration opening).Keeps finish
      (Account fun statement words => "func" :: words = statement.toTree.readback)) (first : Token) :
    (statementAfter declaration first).Accounts finish first := by
  unfold statementAfter
  split
  next returns =>
    refine Rule.accounts_of_isWord returns (by decide) (Rule.bind_account expression_account ?_)
    rintro value _ rfl
    exact Rule.pure_account (by simp)
  next =>
    split
    next func => exact Rule.accounts_of_isWord func (by decide) (declarations first)
    next =>
      refine fun unread _ => ⟨[], rfl, fun _ => ⟨[], ?_, rfl⟩⟩
      have stray : (strayFault first).isStray = true := by
        unfold strayFault
        split <;> rfl
      simpa [strays, stray] using Accounted.stray Accounted.nil

/-- Statements are accounted for one after the other. -/
theorem statements_account
    (declarations : ∀ opening, (declaration opening).Keeps finish
      (Account fun statement words => "func" :: words = statement.toTree.readback))
    (stops : Token → Bool) :
    (Rule.many stops (statementAfter declaration)).Keeps finish
      (Account fun body words => words = Tree.readbackAll (Statement.toTrees body)) := by
  refine Rule.many_keeps (Account fun statement words => words = statement.toTree.readback)
    (fun first _ _ => statementAfter_accounts declarations first)
    (fun _ _ => ⟨[], .nil, rfl⟩) ?_
  intro front back one others accountOne accountOthers _
  refine accountOne.append accountOthers ?_
  rintro _ _ rfl rfl
  rfl

/-- By induction on how deep declarations may be nested. The parts of a declaration are accounted for
one after the other, in the order in which its tree has them. -/
theorem declarationAfter_account (nesting : Nat) (opening : Token) :
    (declarationAfter nesting opening).Keeps finish
      (Account fun statement words => "func" :: words = statement.toTree.readback) := by
  induction nesting generalizing opening with
  | zero => exact fun _ _ => ⟨[], rfl, fun _ => ⟨[], .nil, rfl⟩⟩
  | succ nesting ih =>
    refine Rule.bind_account functionName_account ?_
    rintro name _ rfl
    refine Rule.bind_account parameterSection_account ?_
    rintro parameters _ rfl
    refine Rule.bind_account (Rule.expect_account (Token.isSilent_of_isWord (by decide)) rfl) ?_
    rintro - _ rfl
    refine Rule.bind_account (statements_account ih _) ?_
    rintro body _ rfl
    refine Rule.bind_account (Rule.expect_account (Token.isSilent_of_isWord (by decide)) rfl) ?_
    rintro - _ rfl
    exact Rule.pure_account (by simp [Statement.readback_function])

/-- A whole program is accounted for. -/
theorem program_account :
    program.Keeps finish (Account fun program words => words = program.toTree.readback) := by
  refine Rule.bind_account (statements_account (declarationAfter_account maxNesting) _) ?_
  rintro statements _ rfl
  exact Rule.pure_account (by simp [Program.toTree, Tree.readback])

end Grammar

end FuncLang
