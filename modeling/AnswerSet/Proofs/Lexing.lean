import AnswerSet.Text.Quoted

/-!
# The solver's lexer on woven text

The solver finds the literals of a text from left to right. A quote opens a
literal, a backslash in a literal takes the next character with it, and the next
quote closes the literal. What stands outside of literals is code.

A text is woven into a frame if it is the frame with strings written into its
empty literals, one after the other. **The lexer cannot tell a woven text from
its frame by the code**, and it finds exactly the strings that were woven in
(`lex_woven`). This takes no more than that the frame has no quotes besides those
of its literals, so the notion leaves open which characters the frame may have.
-/

namespace AnswerSet

/-! ## The lexer -/

/-- A text cut up: the code in front, and the literals, still escaped, with the code behind each. -/
structure Lexed where
  front : List Char
  literals : List (List Char × List Char)

namespace Lexed

/-- The stretches of code. -/
def code (lexed : Lexed) : List (List Char) := lexed.front :: lexed.literals.map Prod.snd

/-- The strings that the literals stand for. -/
def contents (lexed : Lexed) : List String :=
  lexed.literals.map fun literal => .ofList (Text.unescape literal.1)

end Lexed

mutual

/-- Cut up a text that starts with code, unless it ends in a literal. -/
def lex? : List Char → Option Lexed
  | [] => some ⟨[], []⟩
  | '"' :: cs => (lexLiteral? cs).map fun (inner, rest) =>
      ⟨[], (inner, rest.front) :: rest.literals⟩
  | c :: cs => (lex? cs).map fun rest => { rest with front := c :: rest.front }

/-- Read a literal up to its quote, and cut up the rest. -/
def lexLiteral? : List Char → Option (List Char × Lexed)
  | [] => none
  | '"' :: cs => (lex? cs).map fun rest => ([], rest)
  | '\\' :: c :: cs => (lexLiteral? cs).map fun (inner, rest) => ('\\' :: c :: inner, rest)
  | c :: cs => (lexLiteral? cs).map fun (inner, rest) => (c :: inner, rest)

end

theorem lex?_cons {c : Char} (hc : c ≠ '"') {cs : List Char} {l : Lexed} (h : lex? cs = some l) :
    lex? (c :: cs) = some { l with front := c :: l.front } := by
  rw [lex?, h]
  · rfl
  · exact hc

/-- An escaped string is read to its end, wherever it comes from. -/
theorem lexLiteral?_escape (s : List Char) {cs : List Char} {l : Lexed} (h : lex? cs = some l) :
    lexLiteral? (Text.escape s ++ '"' :: cs) = some (Text.escape s, l) := by
  fun_induction Text.escape s with
  | case1 => rw [List.nil_append, lexLiteral?, h]; rfl
  | case2 rest ih => rw [List.cons_append, List.cons_append, lexLiteral?, ih]; rfl
  | case3 rest ih => rw [List.cons_append, List.cons_append, lexLiteral?, ih]; rfl
  | case4 rest ih => rw [List.cons_append, List.cons_append, lexLiteral?, ih]; rfl
  | case5 c rest backslash quote newline ih =>
      rw [List.cons_append, lexLiteral?, ih]
      · rfl
      · exact quote
      · exact fun _ _ he _ => backslash he

/-! ## Texts woven into a frame -/

/-- The text is the frame with the strings written into its empty literals. -/
inductive Woven (plain : Char → Prop) : List Char → List Char → List String → Prop
  | nil : Woven plain [] [] []
  | char {c : Char} {cs frame : List Char} {ss : List String} (hc : plain c)
      (h : Woven plain cs frame ss) : Woven plain (c :: cs) (c :: frame) ss
  | literal (s : String) {cs frame : List Char} {ss : List String} (h : Woven plain cs frame ss) :
      Woven plain ('"' :: (Text.escape s.toList ++ '"' :: cs)) ('"' :: '"' :: frame) (s :: ss)

section Woven

variable {plain : Char → Prop} {cs frame cs' frame' : List Char} {ss ss' : List String}

theorem Woven.append (h : Woven plain cs frame ss) (h' : Woven plain cs' frame' ss') :
    Woven plain (cs ++ cs') (frame ++ frame') (ss ++ ss') := by
  induction h with
  | nil => exact h'
  | char hc _ ih => exact ih.char hc
  | @literal s cs frame ss _ ih =>
      rw [List.cons_append, List.append_assoc]
      exact ih.literal s

/-- Text without strings is its own frame. -/
theorem woven_plain (h : ∀ c ∈ cs, plain c) : Woven plain cs cs [] := by
  induction cs with
  | nil => exact .nil
  | cons c cs ih =>
      exact .char (h c List.mem_cons_self) (ih fun d hd => h d (List.mem_cons_of_mem _ hd))

theorem woven_quote (s : String) :
    Woven plain (Text.quote s).toList (Text.quote "").toList [s] := by
  have h : Woven plain _ _ _ := Woven.nil.literal s
  simpa [Text.quote, Text.escape] using h

/-- Weaving writes something exactly where the frame has something. -/
theorem Woven.eq_nil_iff (h : Woven plain cs frame ss) : cs = [] ↔ frame = [] := by
  cases h with
  | nil => simp
  | char _ _ => simp
  | literal _ _ => simp

/-- **Strings stay within their literals.** The code is the frame's, the contents the strings. -/
theorem lex_woven (hp : ∀ c, plain c → c ≠ '"') (h : Woven plain cs frame ss) :
    ∃ l l', lex? cs = some l ∧ lex? frame = some l' ∧ l.code = l'.code ∧ l.contents = ss := by
  induction h with
  | nil => exact ⟨⟨[], []⟩, ⟨[], []⟩, rfl, rfl, rfl, rfl⟩
  | @char c cs frame ss hc _ ih =>
      obtain ⟨l, l', hl, hl', hcode, hcontents⟩ := ih
      refine ⟨_, _, lex?_cons (hp c hc) hl, lex?_cons (hp c hc) hl', ?_, hcontents⟩
      injection hcode with hfront hrest
      rw [Lexed.code, Lexed.code, hfront, hrest]
  | @literal s cs frame ss _ ih =>
      -- the literal is read to its quote in both texts, whatever it contains
      obtain ⟨l, l', hl, hl', hcode, hcontents⟩ := ih
      have hs := lexLiteral?_escape s.toList hl
      have hempty := lexLiteral?_escape [] hl'
      refine ⟨⟨[], (Text.escape s.toList, l.front) :: l.literals⟩,
        ⟨[], ([], l'.front) :: l'.literals⟩, by rw [lex?, hs]; rfl, ?_, ?_, ?_⟩
      · exact congrArg (Option.map _) hempty
      · exact congrArg ([] :: ·) hcode
      · rw [Lexed.contents, List.map_cons, Text.unescape_escape, String.ofList_toList]
        exact congrArg (s :: ·) hcontents

example : (lex? "p(\"a\\\")\", x)".toList).map Lexed.contents = some ["a\")"] := by decide

theorem not_mem_escape (s : List Char) : '\n' ∉ Text.escape s := by
  fun_induction Text.escape s with
  | case1 => simp
  | case2 rest ih => simp [ih]
  | case3 rest ih => simp [ih]
  | case4 rest ih => simp [ih]
  | case5 c rest backslash quote newline ih =>
      have hne : '\n' ≠ c := fun he => newline he.symm
      simp [ih, hne]

/-- **Strings bring no line feeds into the text.** -/
theorem Woven.newline_not_mem (hp : ∀ c, plain c → c ≠ '\n') (h : Woven plain cs frame ss) :
    '\n' ∉ cs := by
  induction h with
  | nil => simp
  | @char c cs frame ss hc _ ih =>
      intro hm
      rcases List.mem_cons.mp hm with he | hm
      · exact hp c hc he.symm
      · exact ih hm
  | @literal s cs frame ss _ ih =>
      have hs := not_mem_escape s.toList
      simp [hs, ih]

end Woven

end AnswerSet
