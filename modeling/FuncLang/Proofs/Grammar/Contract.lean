import FuncLang.Grammar.Statement
import FuncLang.Proofs.Scanner.Segmentation

/-! # Contracts of rules

What a rule does with any tokens, whether or not they are those of a sentence. A contract relates the
tokens that a rule reads to its reading: the value, the problems and the tokens that are left. A rule
keeps a contract if they are related whatever valid tokens it is handed.

A loop keeps each contract that holds before its first turn and is handed on by every turn.

The rules that read a single token for its text all do the same, each with a kind of its own.
-/

namespace FuncLang.Grammar

variable {α β : Type} {finish : Position}

/-- Every beginning of valid tokens that the rule reads is related to its reading. -/
def Rule.Keeps (rule : Rule α) (finish : Position) (Contract : List Token → Reading α → Prop) :
    Prop :=
  ∀ unread, (∀ token ∈ unread, token.lexeme.IsValid) →
    ∃ read, unread = read ++ (rule.read finish unread).rest ∧
      Contract read (rule.read finish unread)

/-- The value that the rule gives for valid tokens is a wanted one, whatever they are. -/
def Rule.Gives (rule : Rule α) (finish : Position) (Wanted : α → Prop) : Prop :=
  ∀ unread, (∀ token ∈ unread, token.lexeme.IsValid) → Wanted (rule.read finish unread).value

namespace Rule

variable {rule : Rule α} {Wanted : α → Prop} {Contract Contract' : List Token → Reading α → Prop}

theorem Keeps.imp (keeps : rule.Keeps finish Contract)
    (convert : ∀ {read reading}, Contract read reading → Contract' read reading) :
    rule.Keeps finish Contract' := by
  intro unread valid
  obtain ⟨read, same, contract⟩ := keeps unread valid
  exact ⟨read, same, convert contract⟩

/-- What is left of valid tokens is valid. -/
theorem isValid_of_mem_rest {unread read rest : List Token} (same : unread = read ++ rest)
    (valid : ∀ token ∈ unread, token.lexeme.IsValid) : ∀ token ∈ rest, token.lexeme.IsValid :=
  fun token member => valid token (same ▸ List.mem_append_right read member)

theorem Gives.keeps (gives : rule.Gives finish Wanted) :
    rule.Keeps finish fun _ reading => Wanted reading.value := by
  intro unread valid
  obtain ⟨read, same⟩ := rule.rest_suffix finish unread
  exact ⟨read, same.symm, gives unread valid⟩

theorem Keeps.gives (keeps : rule.Keeps finish Contract)
    (wanted : ∀ {read reading}, Contract read reading → Wanted reading.value) :
    rule.Gives finish Wanted := by
  intro unread valid
  obtain ⟨read, -, contract⟩ := keeps unread valid
  exact wanted contract

/-- What the first rule reads comes before what the next one reads, and so do the problems. -/
theorem bind_keeps {next : α → Rule β} {First : List Token → Reading α → Prop}
    {Whole : List Token → Reading β → Prop} (first : rule.Keeps finish First)
    (behind : ∀ {front one}, First front one → (next one.value).Keeps finish fun back two =>
      Whole (front ++ back) ⟨two.value, one.raised ++ two.raised, two.rest⟩) :
    (rule >>= next).Keeps finish Whole := by
  intro unread valid
  obtain ⟨front, sameFront, contract⟩ := first unread valid
  obtain ⟨back, sameBack, whole⟩ := behind contract _ (isValid_of_mem_rest sameFront valid)
  refine ⟨front ++ back, ?_, whole⟩
  rw [read_bind, List.append_assoc, ← sameBack, ← sameFront]

/-- A value is handed on without reading more. -/
theorem Gives.map (gives : rule.Gives finish Wanted) {f : α → β} {Wanted' : β → Prop}
    (convert : ∀ {value}, Wanted value → Wanted' (f value)) :
    (do return f (← rule) : Rule β).Gives finish Wanted' :=
  fun unread valid => convert (gives unread valid)

section Many

variable {stops : Token → Bool} {item : Token → Rule α}
variable {Items : List Token → Reading (List α) → Prop}

/-- Items keep a contract that holds of no items and is kept by one more item in front of others. -/
theorem many_keeps (Item : List Token → Reading α → Prop)
    (items : ∀ token, stops token = false → token.lexeme.IsValid →
      (item token).Keeps finish fun read reading => Item (token :: read) reading)
    (none : ∀ rest, Items [] ⟨[], [], rest⟩)
    (more : ∀ {front back one others}, Item front one → Items back others →
      one.rest = back ++ others.rest →
        Items (front ++ back)
          ⟨one.value :: others.value, one.raised ++ others.raised, others.rest⟩) :
    (many stops item).Keeps finish Items := by
  intro unread
  change _ → ∃ read, unread = read ++ (manyRead stops item finish unread).rest ∧
    Items read (manyRead stops item finish unread)
  fun_induction manyRead stops item finish unread with
  | case1 => exact fun _ => ⟨[], rfl, none []⟩
  | case2 token unread => exact fun _ => ⟨[], rfl, none (token :: unread)⟩
  | case3 token unread go one others ih =>
    intro valid
    obtain ⟨validToken, validUnread⟩ := List.forall_mem_cons.mp valid
    obtain ⟨front, sameFront, first⟩ :=
      items token (Bool.eq_false_iff.mpr go) validToken unread validUnread
    obtain ⟨back, sameBack, behind⟩ := ih (isValid_of_mem_rest sameFront validUnread)
    refine ⟨token :: front ++ back, ?_, more first behind sameBack⟩
    rw [List.append_assoc, ← sameBack, List.cons_append, ← sameFront]

theorem many_gives {stops : Token → Bool} {item : Token → Rule α}
    (items : ∀ token, (item token).Gives finish Wanted) :
    (many stops item).Gives finish fun values => ∀ value ∈ values, Wanted value := by
  have keeps : (many stops item).Keeps finish fun _ reading =>
      ∀ value ∈ reading.value, Wanted value :=
    many_keeps (fun _ reading => Wanted reading.value) (fun token _ _ => (items token).keeps)
      (fun _ => List.forall_mem_nil _)
      (fun one others _ => List.forall_mem_cons.mpr ⟨one, others⟩)
  exact keeps.gives id

end Many

end Rule

section Chain

variable {level : Level} {operand : Rule Expression}
variable {Operand Chain : List Token → Reading Expression → Prop}

/-- The loop hands on the contract of what was read before it. -/
theorem chainRead_keeps (operands : operand.Keeps finish Operand)
    (more : ∀ {before after left right token operator}, Chain before left →
      level.operator? token = some operator → Operand after right →
      left.rest = token :: (after ++ right.rest) →
        Chain (before ++ token :: after)
          ⟨.binary operator left.value right.value, left.raised ++ right.raised, right.rest⟩)
    (left : Expression) (unread : List Token) :
    ∀ {before raised}, (∀ token ∈ unread, token.lexeme.IsValid) →
      Chain before ⟨left, raised, unread⟩ →
        ∃ read, unread = read ++ (chainRead level operand finish left unread).rest ∧
          Chain (before ++ read) ⟨(chainRead level operand finish left unread).value,
            raised ++ (chainRead level operand finish left unread).raised,
            (chainRead level operand finish left unread).rest⟩ := by
  fun_induction chainRead level operand finish left unread with
  | case1 => exact fun _ start => ⟨[], rfl, by simpa using start⟩
  | case2 => exact fun _ start => ⟨[], rfl, by simpa using start⟩
  | case3 left token unread operator found right =>
    rename_i whole ih
    intro before raised valid start
    have validUnread := (List.forall_mem_cons.mp valid).2
    obtain ⟨after, sameAfter, derived⟩ := operands unread validUnread
    obtain ⟨read, same, chained⟩ := ih (Rule.isValid_of_mem_rest sameAfter validUnread)
      (more start found derived (congrArg (token :: ·) sameAfter))
    refine ⟨token :: (after ++ read), ?_, by simpa [whole] using chained⟩
    rw [List.cons_append, List.append_assoc, ← same, ← sameAfter]

/-- A chain keeps a contract that holds of its first operand and is kept by one more operator and
operand behind what is read already. -/
theorem chain_keeps (operands : operand.Keeps finish Operand)
    (first : ∀ {read reading}, Operand read reading → Chain read reading)
    (more : ∀ {before after left right token operator}, Chain before left →
      level.operator? token = some operator → Operand after right →
      left.rest = token :: (after ++ right.rest) →
        Chain (before ++ token :: after)
          ⟨.binary operator left.value right.value, left.raised ++ right.raised, right.rest⟩) :
    (chain level operand).Keeps finish Chain := by
  intro unread valid
  obtain ⟨front, sameFront, start⟩ := operands unread valid
  obtain ⟨read, same, chained⟩ := chainRead_keeps operands more _ _
    (Rule.isValid_of_mem_rest sameFront valid) (first start)
  refine ⟨front ++ read, ?_, chained⟩
  rw [List.append_assoc]
  exact sameFront.trans (congrArg (front ++ ·) same)

theorem chain_gives {Wanted Whole : Expression → Prop} (operands : operand.Gives finish Wanted)
    (first : ∀ {value}, Wanted value → Whole value)
    (more : ∀ {left right operator}, Whole left → operator.level = level → Wanted right →
      Whole (.binary operator left right)) :
    (chain level operand).Gives finish Whole := by
  have keeps : (chain level operand).Keeps finish fun _ reading => Whole reading.value :=
    chain_keeps operands.keeps first
      (fun left found right _ => more left (Level.operator?_eq_some found).1 right)
  exact keeps.gives id

end Chain

/-! ## Single tokens -/

/-- The rule reads one token of a kind for its text, and raises a fault where none comes next. -/
structure Rule.Picks (rule : Rule α) (kind : Token.Kind) (value : String → α) (none : α)
    (atEnd fault : Fault) : Prop where
  read_nil : ∀ finish, rule.read finish [] = ⟨none, [⟨atEnd, Token.endOfInput finish⟩], []⟩
  read_cons : ∀ finish token unread, rule.read finish (token :: unread) =
    if token.kind = kind then ⟨value token.text, [], unread⟩
    else ⟨none, [⟨fault, token⟩], token :: unread⟩

/-- A contract is kept if it holds where the token is read and where one of the faults is raised. -/
theorem Rule.Picks.keeps {rule : Rule α} {kind : Token.Kind} {value : String → α} {none : α}
    {atEnd fault : Fault} (picks : rule.Picks kind value none atEnd fault)
    {Contract : List Token → Reading α → Prop}
    (found : ∀ token rest, token.lexeme.IsValid → token.kind = kind →
      Contract [token] ⟨value token.text, [], rest⟩)
    (atEnd : ∀ token rest, Contract [] ⟨none, [⟨atEnd, token⟩], rest⟩)
    (lacking : ∀ token rest, Contract [] ⟨none, [⟨fault, token⟩], rest⟩) :
    rule.Keeps finish Contract := by
  intro unread valid
  cases unread with
  | nil =>
    rw [picks.read_nil]
    exact ⟨[], rfl, atEnd _ _⟩
  | cons token unread =>
    rw [picks.read_cons]
    split
    next same => exact ⟨[token], rfl, found token unread (valid token List.mem_cons_self) same⟩
    next => exact ⟨[], rfl, lacking _ _⟩

theorem primary_picks :
    primary.Picks .integer .literal .missing .expectedExpression .expectedInteger :=
  ⟨read_primary_nil, read_primary_cons⟩

theorem functionName_picks :
    functionName.Picks .identifier some none .expectedName .expectedName :=
  ⟨read_functionName_nil, read_functionName_cons⟩

theorem parameter_picks :
    parameter.Picks .identifier .named .unsupported .expectedParameter .expectedParameter :=
  ⟨read_parameter_nil, read_parameter_cons⟩

end FuncLang.Grammar
