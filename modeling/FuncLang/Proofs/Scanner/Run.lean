import FuncLang.Proofs.Scanner.LineBreak

/-! # Runs of a scanner

A scanner can be asked for the next token, for the next one before the end of the input, or for all that
are left before it. Whatever it is asked, it pulls one token or several, so what it has pulled is always
the beginning of the tokens of its source, with the end of the input repeated behind them. What it tells
about itself agrees with that: whether there is a next token, whether everything has been read, and which
token was the last one.
-/

namespace FuncLang.Scanner

/-- What a scanner can be asked for. -/
inductive Request where
  /-- The next token, whatever it is. -/
  | token
  /-- The next token before the end of the input. -/
  | next
  /-- All tokens that are left before the end of the input. -/
  | rest
deriving DecidableEq, Repr

/-- What is given for a request. -/
inductive Answer where
  | token (one : Token)
  | next (one? : Option Token)
  | rest (all : List Token)
deriving DecidableEq, Repr

/-- The tokens that an answer gives. -/
def Answer.tokens : Answer → List Token
  | .token one => [one]
  | .next one? => one?.toList
  | .rest all => all

/-- Does what is requested. -/
def perform (scanner : Scanner) : Request → Answer × Scanner
  | .token => (.token scanner.pull.last, scanner.pull)
  | .next => (.next scanner.next?.1, scanner.next?.2)
  | .rest => (.rest scanner.drain.1, scanner.drain.2)

/-- The tokens that are left, with the end of the input behind them. -/
def tokens (scanner : Scanner) : List Token := scanner.drain.1 ++ [scanner.drain.2.last]

/-- The tokens that are pulled for a request, the end of the input included. -/
def pulls (scanner : Scanner) : Request → List Token
  | .token | .next => [scanner.pull.last]
  | .rest => scanner.tokens

/-- The scanner behind requests that are made one after the other. -/
def after (scanner : Scanner) : List Request → Scanner
  | [] => scanner
  | request :: requests => (scanner.perform request).2.after requests

/-- The tokens that are pulled for requests, one request after the other. -/
def pulled (scanner : Scanner) : List Request → List Token
  | [] => []
  | request :: requests => scanner.pulls request ++ (scanner.perform request).2.pulled requests

/-- Pulling the tokens one after the other leads from one scanner to the other. -/
inductive Run : Scanner → List Token → Scanner → Prop
  | none {scanner : Scanner} : Run scanner [] scanner
  | more {scanner behind : Scanner} {tokens : List Token} (others : Run scanner.pull tokens behind) :
      Run scanner (scanner.pull.last :: tokens) behind

variable {scanner behind final : Scanner} {tokens others : List Token}

/-! ## Single pulls -/

theorem tokens_of_hasNext (more : scanner.hasNext = true) :
    scanner.tokens = scanner.pull.last :: scanner.pull.tokens := by
  rw [Scanner.tokens, drain, dif_pos more]
  rfl

theorem tokens_of_not_hasNext (done : scanner.hasNext = false) :
    scanner.tokens = [scanner.pull.last] := by
  rw [Scanner.tokens, drain, dif_neg (by simp [done])]
  rfl

/-- The last of all tokens is the end of the input. -/
theorem isEnd_of_getLast?_tokens {token : Token} (last : scanner.tokens.getLast? = some token) :
    token.isEnd = true := by
  obtain ⟨position, final⟩ := scanner.last_drain
  rw [Scanner.tokens, List.getLast?_concat, final] at last
  obtain rfl := Option.some.inj last
  exact Token.isEnd_endOfInput position

/-- Behind the last token a pull reads all that is left, and further pulls change nothing. -/
theorem pull_of_not_hasNext (done : scanner.hasNext = false) :
    scanner.pull.rest = [] ∧ scanner.pull.last.isEnd = true ∧ scanner.pull.pull = scanner.pull := by
  have blank : ∀ c ∈ scanner.rest, isGap c = true := by
    apply List.dropWhile_eq_nil_iff.mp
    simpa [hasNext, ahead] using done
  rw [(pull_of_gap blank).2]
  exact ⟨rfl, rfl, rfl⟩

/-- No lexeme takes the line feed at the end of a text. -/
theorem getLast?_rest_pull (more : scanner.hasNext = true) (feed : scanner.rest.getLast? = some '\n') :
    scanner.pull.rest.getLast? = some '\n' := by
  obtain ⟨lexeme, valid, -, split, -⟩ := exists_lexeme_of_hasNext more
  rw [split] at feed
  exact valid.getLast?_rest feed

/-! ## Runs -/

namespace Run

theorem append (front : Run scanner tokens behind) (back : Run behind others final) :
    Run scanner (tokens ++ others) final := by
  induction front with
  | none => exact back
  | more _ ih => exact .more (ih back)

/-- Draining is pulling until the end of the input. -/
theorem drain (scanner : Scanner) : Run scanner scanner.tokens scanner.drain.2 := by
  fun_induction Scanner.drain scanner with
  | case1 scanner more tokens final behind ih =>
    rw [behind] at ih
    rw [tokens_of_hasNext more]
    exact .more ih
  | case2 scanner done =>
    rw [tokens_of_not_hasNext (by simpa using done)]
    exact .more .none

theorem perform (scanner : Scanner) (request : Request) :
    Run scanner (scanner.pulls request) (scanner.perform request).2 := by
  cases request with
  | token | next => exact .more .none
  | rest => exact drain scanner

theorem after (scanner : Scanner) (requests : List Request) :
    Run scanner (scanner.pulled requests) (scanner.after requests) := by
  induction requests generalizing scanner with
  | nil => exact .none
  | cons request requests ih => exact (perform scanner request).append (ih _)

/-- A scanner that pulling does not change gives the same token again and again. -/
theorem eq_last (run : Run scanner tokens behind) (fixed : scanner.pull = scanner) :
    ∀ token ∈ tokens, token = scanner.last := by
  induction run with
  | none => exact List.forall_mem_nil _
  | more _ ih =>
    rw [fixed] at ih ⊢
    exact List.forall_mem_cons.mpr ⟨rfl, ih fixed⟩

/-- The tokens of a run are those that were left, and then the last one of them again and again. -/
theorem getElem? (run : Run scanner tokens behind) (number : Nat) {token : Token}
    (found : tokens[number]? = some token) :
    scanner.tokens[number]? = some token ∨
      scanner.tokens.length ≤ number ∧ scanner.tokens.getLast? = some token := by
  induction run generalizing number with
  | none => simp at found
  | @more scanner behind tokens run ih =>
    cases more : scanner.hasNext with
    | true =>
      rw [tokens_of_hasNext more]
      cases number with
      | zero => exact .inl found
      | succ number =>
        refine (ih number found).imp id ?_
        rintro ⟨past, last⟩
        refine ⟨Nat.succ_le_succ past, ?_⟩
        rw [List.getLast?_cons, last]
        rfl
    | false =>
      rw [tokens_of_not_hasNext more]
      cases number with
      | zero => exact .inl found
      | succ number =>
        have again := (pull_of_not_hasNext more).2.2
        have member : token ∈ tokens := List.mem_of_getElem? found
        obtain rfl := run.eq_last again token member
        exact .inr ⟨Nat.succ_le_succ (Nat.zero_le number), rfl⟩

/-- Behind the end of the input nothing is left. -/
theorem rest_eq_nil (run : Run scanner tokens behind) (done : scanner.rest = []) : behind.rest = [] := by
  induction run with
  | none => exact done
  | more _ ih => exact ih (pull_of_not_hasNext (by simp [hasNext, ahead, done])).1

/-- Everything has been read once the end of the input was pulled, and not before. -/
theorem rest_eq_nil_iff (run : Run scanner tokens behind) (feed : scanner.rest.getLast? = some '\n') :
    behind.rest = [] ↔ ∃ token ∈ tokens, token.isEnd = true := by
  induction run with
  | @none scanner =>
    have some : scanner.rest ≠ [] := by
      intro nothing
      simp [nothing] at feed
    simp [some]
  | @more scanner behind tokens run ih =>
    cases more : scanner.hasNext with
    | true =>
      have token : scanner.pull.last.isEnd = false := by rw [isEnd_pull, more, Bool.not_true]
      rw [ih (getLast?_rest_pull more feed)]
      simp [token]
    | false =>
      obtain ⟨nothing, atEnd, -⟩ := pull_of_not_hasNext more
      simp [run.rest_eq_nil nothing, atEnd]

theorem last_eq (run : Run scanner tokens behind) {token : Token} (last : tokens.getLast? = some token) :
    behind.last = token := by
  induction run with
  | none => cases last
  | more run ih =>
    cases run with
    | none => exact Option.some.inj last
    | more others => exact ih (by simpa using last)

end Run

/-- What an answer gives is what was pulled for it, without the end of the input if that was not asked
for. -/
theorem tokens_perform (scanner : Scanner) (request : Request) :
    (scanner.perform request).1.tokens =
      (scanner.pulls request).filter fun token => request = .token ∨ token.isEnd = false := by
  cases request with
  | token => simp [perform, pulls, Answer.tokens]
  | next => cases final : scanner.pull.last.isEnd <;> simp [perform, pulls, Answer.tokens, next?, final]
  | rest =>
    obtain ⟨position, last⟩ := scanner.last_drain
    have kept : (scanner.drain.1.filter fun token => !token.isEnd) = scanner.drain.1 :=
      List.filter_eq_self.mpr fun token member => by simp [scanner.isEnd_of_mem_drain token member]
    simp [perform, pulls, Answer.tokens, Scanner.tokens, last, kept]

/-- Whatever a scanner was asked for, and however often, the tokens that it has pulled are those of its
source, one by one, and behind them the end of the input at the same position every time. There is a next
token exactly if the next pull does not give the end of the input, and the next request gives what is
pulled for it. Everything has been read exactly if the end of the input has been pulled, and the last
token is the one that was pulled last. -/
theorem requests_coherent (source : String) (requests : List Request) :
    let scanner := (ofSource source).after requests
    let pulled := (ofSource source).pulled requests
    (∀ (number : Nat) token, pulled[number]? = some token →
      (tokenize source)[number]? = some token ∨
        (tokenize source).length ≤ number ∧ token.isEnd = true ∧
          (tokenize source).getLast? = some token) ∧
      (scanner.hasNext = true ↔ scanner.pull.last.isEnd = false) ∧
      (scanner.next?.1 = none ↔ scanner.pull.last.isEnd = true) ∧
      (∀ request, (scanner.perform request).1.tokens =
        (scanner.pulls request).filter fun token => request = .token ∨ token.isEnd = false) ∧
      (scanner.atEnd = true ↔ ∃ token ∈ pulled, token.isEnd = true) ∧
      ∀ token ∈ pulled.getLast?, scanner.last = token := by
  intro scanner pulled
  have run : Run (ofSource source) pulled scanner := Run.after _ requests
  have feed : (ofSource source).rest.getLast? = some '\n' := List.getLast?_concat
  refine ⟨fun number token found => (run.getElem? number found).imp id ?_, ?_, ?_, ?_, ?_, ?_⟩
  · rintro ⟨past, last⟩
    exact ⟨past, isEnd_of_getLast?_tokens last, last⟩
  · simp [isEnd_pull]
  · simp [next?]
  · exact tokens_perform scanner
  · rw [atEnd, List.isEmpty_iff]
    exact run.rest_eq_nil_iff feed
  · exact fun token last => run.last_eq last

/-- The fourth pull goes beyond the three tokens of the source. -/
theorem pulled_past_the_end :
    ((ofSource "x 1").pulled [.next, .rest, .next])[3]? = some (Token.endOfInput ⟨2, 1⟩) ∧
      (tokenize "x 1").length ≤ 3 ∧ (Token.endOfInput ⟨2, 1⟩).isEnd = true ∧
      (tokenize "x 1").getLast? = some (Token.endOfInput ⟨2, 1⟩) := by
  have pulled : ((ofSource "x 1").pulled [.next, .rest, .next])[3]? =
      some (Token.endOfInput ⟨2, 1⟩) := by decide +kernel
  have outside : (tokenize "x 1")[3]? ≠ some (Token.endOfInput ⟨2, 1⟩) := by decide +kernel
  have known := (requests_coherent "x 1" [.next, .rest, .next]).1 3 _ pulled
  exact ⟨pulled, known.resolve_left outside⟩

end FuncLang.Scanner
