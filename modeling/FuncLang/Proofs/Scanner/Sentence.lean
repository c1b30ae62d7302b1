import FuncLang.Unread

/-! # The sentence of a source

The tokens of a source that mean something: comments and the end of the input are left out. They are
what the rules of the grammar and of arithmetic are handed.
-/

namespace FuncLang

/-- The tokens of a source, without comments and without the end of the input. -/
def sentence (source : String) : List Token :=
  (tokenize source).filter fun token => token.kind != .comment && !token.isEnd

/-- No token that is pulled before the end of the input is the end of the input. -/
theorem Scanner.isEnd_of_mem_drain (scanner : Scanner) :
    ∀ token ∈ scanner.drain.1, token.isEnd = false := by
  fun_induction Scanner.drain scanner with
  | case1 scanner more tokens final rest ih =>
    intro token member
    rcases List.mem_cons.mp member with rfl | member
    · rw [Scanner.isEnd_pull, more, Bool.not_true]
    · exact ih token (by rw [rest]; exact member)
  | case2 => simp

/-- Behind all tokens stands the end of the input. -/
theorem Scanner.last_drain (scanner : Scanner) :
    ∃ position, scanner.drain.2.last = Token.endOfInput position := by
  fun_induction Scanner.drain scanner with
  | case1 scanner more tokens final rest ih => rwa [rest] at ih
  | case2 scanner none =>
    have nothing : scanner.ahead = [] := by simpa [Scanner.hasNext] using none
    exact ⟨_, by rw [Scanner.pull, nothing]⟩

theorem sentence_eq_significant (source : String) :
    sentence source = significant (Scanner.ofSource source).drain.1 := by
  obtain ⟨position, last⟩ := Scanner.last_drain (Scanner.ofSource source)
  have tokens := Scanner.isEnd_of_mem_drain (Scanner.ofSource source)
  simp only [sentence, tokenize, significant, List.filter_append, List.filter_cons, List.filter_nil, last,
    Token.isEnd_endOfInput, Bool.not_true, Bool.and_false, Bool.false_eq_true, if_false, List.append_nil]
  refine List.filter_congr fun token member => ?_
  rw [tokens token member, Bool.not_false, Bool.and_true]

/-- The tokens without comments are the sentence and the end of the input behind it. -/
theorem significant_tokenize_eq (source : String) :
    significant (tokenize source) =
      sentence source ++ [Token.endOfInput (Unread.ofSource source).finish] := by
  obtain ⟨position, last⟩ := Scanner.last_drain (Scanner.ofSource source)
  have finish : (Unread.ofSource source).finish = position := congrArg Token.position last
  rw [finish, sentence_eq_significant, tokenize, significant, List.filter_append, last]
  rfl

theorem significant_tokenize (source : String) :
    ∃ position, significant (tokenize source) = sentence source ++ [Token.endOfInput position] :=
  ⟨_, significant_tokenize_eq source⟩

@[simp] theorem Unread.tokens_ofSource (source : String) :
    (Unread.ofSource source).tokens = sentence source := (sentence_eq_significant source).symm

end FuncLang
