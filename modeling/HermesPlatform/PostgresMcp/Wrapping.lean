/-
  HermesPlatform.PostgresMcp.Wrapping

  The text that `_execute` sends for an accepted PostgreSQL query, token by token.

  PostgreSQL's scanner and grammar are parameters, with what is documented of them: where a
  `--` comment starts and ends, that no lexeme which ends before a closing parenthesis runs
  on over it, and the rule for a sub-query.  Both texts are C strings, so they end at the
  first null character.

  `_execute` writes the query and a closing parenthesis on one line.  `wrapped_iff` says for
  which accepted queries the parenthesis is read as one.
-/

import HermesPlatform.Lib.Lexer
import HermesPlatform.PostgresMcp.Noninterference
import Mathlib.Data.Bool.AllAny

namespace HermesPlatform
namespace PostgresMcp

open Python Lexer

/-! ## Scanner and grammar -/

/-- A token of the grammar, as written. -/
inductive Token where
  /-- A keyword or an unquoted identifier. -/
  | word (text : String)
  | number (text : String)
  | special (c : Char)
  /-- A constant, a quoted identifier, an operator or a parameter. -/
  | other (text : String)
deriving DecidableEq, Repr

/-- What the scanner tells apart; the grammar sees the tokens only. -/
inductive LexemeKind where
  | token (t : Token)
  | whitespace
  | lineComment
  | blockComment
deriving DecidableEq, Repr

def LexemeKind.token? : LexemeKind → Option Token
  | .token t => some t
  | _ => none

/-- The characters of the wrapper's words. -/
def isWordChar (c : Char) : Bool := c.isAlpha || c == '_'

/-- The `space` characters of the scanner. -/
def isScannerSpace (c : Char) : Bool :=
  c == ' ' || c == '\t' || c == '\n' || c == '\r' || c == '\x0b' || c == '\x0c'

/-- The characters that end a `--` comment. -/
def isNewline (c : Char) : Bool := c == '\n' || c == '\r'

/-- PostgreSQL's scanner, at a boundary between lexemes. -/
structure PgScanner where
  next : Scanner Char LexemeKind
  word : ∀ w rest, w ≠ [] → (∀ c ∈ w, isWordChar c = true) →
    next (w ++ ' ' :: rest) = some (.token (.word (String.ofList w)), w.length)
  number : ∀ ds, ds ≠ [] → (∀ c ∈ ds, c.isDigit = true) →
    next ds = some (.token (.number (String.ofList ds)), ds.length)
  asterisk : ∀ rest, next ('*' :: ' ' :: rest) = some (.token (.special '*'), 1)
  parenthesis : ∀ c rest, c = '(' ∨ c = ')' → next (c :: rest) = some (.token (.special c), 1)
  of_special : ∀ c text n, next text = some (.token (.special c), n) → ∃ rest, text = c :: rest
  space : ∀ c rest, isScannerSpace c = false → next (' ' :: c :: rest) = some (.whitespace, 1)
  lineComment : ∀ text, next ('-' :: '-' :: text)
    = some (.lineComment, 2 + (text.takeWhile fun c => !isNewline c).length)
  of_lineComment : ∀ text n, next text = some (.lineComment, n) → ∃ rest, text = '-' :: '-' :: rest
  /-- No other lexeme runs on over a closing parenthesis that is written after the text.  A
      string constant goes on after a line end and a quote, so the text ends on this line. -/
  beforeParenthesis : ∀ k n text line, k ≠ .lineComment → (∀ c ∈ line, isNewline c = false) →
    next text = some (k, n) → next (text ++ ')' :: line) = some (k, n)

/-- The part of a text that a C string holds. -/
def cString (text : String) : List Char := text.toList.takeWhile (· ≠ '\x00')

/-- The tokens of a text; `none` is a lexical error. -/
def tokens (S : PgScanner) (text : String) : Option (List Token) :=
  (lexemes S.next (cString text)).map fun ls => ls.filterMap (·.1.token?)

/-- The text sent by `_execute`. -/
def wrapped (sql : String) (maximum : Nat) : String :=
  "SELECT * FROM (" ++ sql ++ ") AS hermes_scoped_query LIMIT " ++ toString (maximum + 1)

/-- The wrapper's tokens before the query. -/
def openingTokens : List Token :=
  [.word "SELECT", .special '*', .word "FROM", .special '(']

/-- The wrapper's tokens after the query. -/
def closingTokens (maximum : Nat) : List Token :=
  [.special ')', .word "AS", .word "hermes_scoped_query", .word "LIMIT",
   .number (toString (maximum + 1))]

/-- PostgreSQL's grammar over tokens, with the rule for a sub-query under a limit.  A semicolon
    ends a statement, also where nothing follows it, and never stands in a sub-query. -/
structure PgGrammar where
  parse : List Token → Option (List PgTree)
  subquery : ∀ query root maximum, .special ';' ∉ query → parse query = some [root] →
    selectRoot root ≠ none →
      parse (openingTokens ++ (query ++ closingTokens maximum)) = some [scopedQuery maximum root]

/-- `raw_parser`. -/
def rawParser (S : PgScanner) (G : PgGrammar) (text : String) : Option (List PgTree) :=
  (tokens S text).bind G.parse

/-- The text sent has the tokens of the query between those of the wrapper, and is parsed to
    the query as a sub-query under the limit. -/
def WrapsQuery (S : PgScanner) (G : PgGrammar) (sql : String) (maximum : Nat) : Prop :=
  ∃ query root, tokens S sql = some query ∧ G.parse query = some [root] ∧
    tokens S (wrapped sql maximum) = some (openingTokens ++ (query ++ closingTokens maximum)) ∧
    rawParser S G (wrapped sql maximum) = some [scopedQuery maximum root]

/-- The text has no null character, and its last lexeme is not a `--` comment. -/
def EndsClosed (S : PgScanner) (text : List Char) : Prop :=
  '\x00' ∉ text ∧ ∀ ls, lexemes S.next text = some ls →
    ∀ last ∈ ls.getLast?, last.1 ≠ .lineComment

/-! ## The wrapper's own lexemes -/

section Wrapper

variable (S : PgScanner)

/-- One blank between two lexemes. -/
theorem reads_blank (rest : List Char) (hrest : rest.head?.map isScannerSpace = some false) :
    Reads S.next (' ' :: rest) [(.whitespace, [' '])] rest := by
  obtain ⟨c, hhead, hc⟩ := Option.map_eq_some_iff.mp hrest
  obtain ⟨rest', rfl⟩ := List.head?_eq_some_iff.mp hhead
  exact Reads.one [' '] _ (by simp) (S.space c rest' hc)

theorem reads_word (w rest : List Char) (hw : w ≠ []) (hchars : w.all isWordChar = true)
    (hrest : rest.head?.map isScannerSpace = some false) :
    Reads S.next (w ++ ' ' :: rest)
      [(.token (.word (String.ofList w)), w), (.whitespace, [' '])] rest :=
  .lexeme hw (S.word w _ hw (List.all_eq_true.mp hchars)) (reads_blank S rest hrest)

theorem reads_special (c : Char) (rest : List Char) (hc : c = '(' ∨ c = ')') :
    Reads S.next (c :: rest) [(.token (.special c), [c])] rest :=
  Reads.one [c] rest (by simp) (S.parenthesis c rest hc)

/-- Whatever the query, the wrapper is read up to it. -/
theorem reads_opening (rest : List Char) :
    ∃ ls, Reads S.next ("SELECT * FROM (".toList ++ rest) ls rest ∧
      ls.filterMap (·.1.token?) = openingTokens := by
  have hfrom : Reads S.next ("FROM".toList ++ ' ' :: '(' :: rest) _ rest :=
    (reads_word S "FROM".toList ('(' :: rest) (by decide) (by decide) rfl).trans
      (reads_special S '(' rest (.inl rfl))
  have hasterisk : Reads S.next ('*' :: ' ' :: ("FROM".toList ++ ' ' :: '(' :: rest)) _ rest :=
    (Reads.one ['*'] _ (by simp) (S.asterisk _)).trans ((reads_blank S _ rfl).trans hfrom)
  have hselect := (reads_word S "SELECT".toList _ (by decide) (by decide) rfl).trans hasterisk
  exact ⟨_, hselect, rfl⟩

/-- The rest of the wrapper, after the query. -/
def closing (maximum : Nat) : List Char :=
  ')' :: ' ' :: ("AS".toList ++ ' ' :: ("hermes_scoped_query".toList ++
    ' ' :: ("LIMIT".toList ++ ' ' :: (toString (maximum + 1)).toList)))

theorem toString_digits (n : Nat) : (toString n).toList ≠ [] ∧
    ∀ c ∈ (toString n).toList, c.isDigit = true := by
  rw [Nat.toString_eq_ofList_toDigits, String.toList_ofList]
  exact ⟨Nat.toDigits_ne_nil, fun c hc => Nat.isDigit_of_mem_toDigits (by decide) (by decide) hc⟩

theorem isDigit_ne {c a : Char} (hc : c.isDigit = true) (ha : a.isDigit = false) : c ≠ a := by
  rintro rfl
  rw [hc] at ha
  cases ha

theorem isDigit_not_space {c : Char} (hc : c.isDigit = true) : isScannerSpace c = false := by
  have hne : ∀ a : Char, a.isDigit = false → (c == a) = false :=
    fun a ha => beq_eq_false_iff_ne.mpr (isDigit_ne hc ha)
  simp only [isScannerSpace, hne ' ' rfl, hne '\t' rfl, hne '\n' rfl, hne '\r' rfl,
    hne '\x0b' rfl, hne '\x0c' rfl, Bool.or_false]

theorem reads_closing (maximum : Nat) :
    ∃ ls, Reads S.next (closing maximum) ls [] ∧
      ls.filterMap (·.1.token?) = closingTokens maximum := by
  obtain ⟨hne, hdigits⟩ := toString_digits (maximum + 1)
  have hhead : (toString (maximum + 1)).toList.head?.map isScannerSpace = some false := by
    obtain ⟨d, ds, hds⟩ := List.exists_cons_of_ne_nil hne
    rw [hds] at hdigits ⊢
    simp [isDigit_not_space (hdigits d List.mem_cons_self)]
  have hnumber : Reads S.next (toString (maximum + 1)).toList
      [(.token (.number (toString (maximum + 1))), (toString (maximum + 1)).toList)] [] := by
    have hfirst := S.number _ hne hdigits
    rw [String.ofList_toList] at hfirst
    exact .whole hne hfirst
  have hlimit := (reads_word S "LIMIT".toList _ (by decide) (by decide) hhead).trans hnumber
  have halias := (reads_word S "hermes_scoped_query".toList _ (by decide) (by decide) rfl).trans
    hlimit
  have has := (reads_word S "AS".toList _ (by decide) (by decide) rfl).trans halias
  have hread := (reads_special S ')' _ (.inr rfl)).trans ((reads_blank S _ rfl).trans has)
  exact ⟨_, hread, rfl⟩

theorem closing_eq (maximum : Nat) : closing maximum =
    ") AS hermes_scoped_query LIMIT ".toList ++ (toString (maximum + 1)).toList := rfl

/-- The rest of the wrapper stands on one line of the C string. -/
theorem closing_one_line (maximum : Nat) :
    ∀ c ∈ closing maximum, c ≠ '\x00' ∧ isNewline c = false := by
  intro c hc
  rw [closing_eq, List.mem_append] at hc
  obtain hc | hc := hc
  · have hclosing : ∀ c ∈ ") AS hermes_scoped_query LIMIT ".toList,
        c ≠ '\x00' ∧ isNewline c = false := List.all_iff_forall_prop.mp (by decide)
    exact hclosing c hc
  · have hdigit := (toString_digits (maximum + 1)).2 c hc
    refine ⟨isDigit_ne hdigit rfl, ?_⟩
    simp only [isNewline, beq_eq_false_iff_ne.mpr (isDigit_ne (a := '\n') hdigit rfl),
      beq_eq_false_iff_ne.mpr (isDigit_ne (a := '\r') hdigit rfl), Bool.or_false]

/-- The characters of an f-string with two texts and two values. -/
theorem toList_interpolated (a b c d : String) :
    (a ++ b ++ c ++ d).toList = a.toList ++ (b.toList ++ (c.toList ++ d.toList)) := by
  simp only [String.toList_append, List.append_assoc]

theorem wrapped_toList (sql : String) (maximum : Nat) : (wrapped sql maximum).toList =
    "SELECT * FROM (".toList ++ (sql.toList ++ closing maximum) := by
  rw [closing_eq]
  exact toList_interpolated _ _ _ _

theorem cString_wrapped (sql : String) (maximum : Nat) : cString (wrapped sql maximum) =
    "SELECT * FROM (".toList ++ (sql.toList ++ closing maximum).takeWhile (· ≠ '\x00') := by
  rw [cString, wrapped_toList]
  exact List.takeWhile_append_of_pos (List.all_eq_true.mp (by decide))

end Wrapper

/-! ## What follows the query -/

section Query

variable (S : PgScanner)

/-- The length of a comment is up to the end of its line. -/
theorem lineComment_length {text : List Char} {n : Nat}
    (h : S.next text = some (.lineComment, n)) :
    ∃ rest, text = '-' :: '-' :: rest ∧
      n = 2 + (rest.takeWhile fun c => !isNewline c).length := by
  obtain ⟨rest, rfl⟩ := S.of_lineComment text n h
  rw [S.lineComment rest] at h
  simp only [Option.some.injEq, Prod.mk.injEq, true_and] at h
  exact ⟨rest, rfl, h.symm⟩

/-- Only a comment at the end of the text runs on. -/
theorem keeps_parenthesis {line : List Char} (hline : ∀ c ∈ line, isNewline c = false) :
    Keeps S.next (')' :: line) (· = .lineComment) where
  inside := by
    intro k cs text hne hfirst
    by_cases hk : k = .lineComment
    · subst hk
      obtain ⟨rest, hrest, hlength⟩ := lineComment_length S hfirst
      have htext : cs.length + text.length = rest.length + 2 := by
        rw [← List.length_append, hrest]
        rfl
      have hpos : 0 < text.length := List.length_pos_of_ne_nil hne
      rw [← List.append_assoc, hrest, List.cons_append, List.cons_append, S.lineComment,
        List.takeWhile_append, if_neg (by omega), hlength]
    · rw [← List.append_assoc]
      exact S.beforeParenthesis k cs.length (cs ++ text) line hk hline hfirst
  atEnd := by
    intro k cs hk hfirst
    exact S.beforeParenthesis k cs.length cs line hk hline hfirst

/-- A comment that ends with the text takes up what is written after it on its line. -/
theorem lineComment_swallows {cs line : List Char} (hline : ∀ c ∈ line, isNewline c = false)
    (h : S.next cs = some (.lineComment, cs.length)) :
    S.next (cs ++ line) = some (.lineComment, (cs ++ line).length) := by
  obtain ⟨rest, rfl, hlength⟩ := lineComment_length S h
  have hrest : (rest.takeWhile fun c => !isNewline c) = rest := by
    apply (List.takeWhile_prefix _).eq_of_length
    simp only [List.length_cons] at hlength
    omega
  have hall : ((rest ++ line).takeWhile fun c => !isNewline c) = rest ++ line := by
    rw [List.takeWhile_append_of_pos (List.takeWhile_eq_self_iff.mp hrest),
      List.takeWhile_eq_self_iff.mpr]
    intro c hc
    rw [hline c hc]
    rfl
  rw [List.cons_append, List.cons_append, S.lineComment, hall]
  simp only [List.length_cons, Option.some.injEq, Prod.mk.injEq, true_and]
  omega

theorem reads_comment {text line cs : List Char} {ls : List (LexemeKind × List Char)}
    (hline : ∀ c ∈ line, isNewline c = false)
    (h : Reads S.next text (ls ++ [(.lineComment, cs)]) []) :
    Reads S.next (text ++ ')' :: line) (ls ++ [(.lineComment, cs ++ ')' :: line)]) [] := by
  obtain ⟨mid, hls, hlast⟩ := h.split
  have hparenthesis : ∀ c ∈ ')' :: line, isNewline c = false := by
    intro c hc
    obtain rfl | hc := List.mem_cons.mp hc
    · rfl
    · exact hline c hc
  cases hlast with
  | @lexeme _ _ after _ _ ne first others =>
      cases others
      rw [List.append_nil] at first hls
      have hbefore := hls.append (keeps_parenthesis S hline) (fun hempty => absurd hempty ne)
      have hcomment := lineComment_swallows S hparenthesis first
      exact hbefore.trans (.whole (by simp) hcomment)

theorem tokens_eq_some_iff {text : String} {ts : List Token} :
    tokens S text = some ts ↔
      ∃ ls, Reads S.next (cString text) ls [] ∧ ls.filterMap (·.1.token?) = ts := by
  simp only [tokens, Option.map_eq_some_iff, lexemes_eq_some_iff]

/-- A text without a semicolon has no such token. -/
theorem semicolon_notMem_tokens {text : String} {ts : List Token} (h : tokens S text = some ts)
    (htext : ';' ∉ text.toList) : .special ';' ∉ ts := by
  obtain ⟨ls, hls, rfl⟩ := (tokens_eq_some_iff S).mp h
  intro hmem
  obtain ⟨⟨k, cs⟩, hl, htoken⟩ := List.mem_filterMap.mp hmem
  obtain ⟨after, -, hfirst, hsuffix⟩ := hls.of_mem hl
  cases k with
  | token t =>
      obtain rfl : t = .special ';' := Option.some.inj htoken
      obtain ⟨rest, hrest⟩ := S.of_special _ _ _ hfirst
      rw [hrest] at hsuffix
      have hcString : ';' ∈ cString text := hsuffix.subset List.mem_cons_self
      exact htext ((List.takeWhile_prefix _).subset hcString)
  | whitespace => cases htoken
  | lineComment => cases htoken
  | blockComment => cases htoken

theorem cString_of_notMem {text : String} (h : '\x00' ∉ text.toList) :
    cString text = text.toList := by
  rw [cString, List.takeWhile_eq_self_iff]
  intro c hc
  exact decide_eq_true fun heq => h (heq ▸ hc)

/-- All of the text that is sent is read. -/
theorem cString_wrapped_of_notMem {sql : String} (h : '\x00' ∉ sql.toList) (maximum : Nat) :
    cString (wrapped sql maximum) =
      "SELECT * FROM (".toList ++ (sql.toList ++ closing maximum) := by
  rw [cString_wrapped, List.takeWhile_eq_self_iff.mpr]
  intro c hc
  obtain hc | hc := List.mem_append.mp hc
  · exact decide_eq_true fun heq => h (heq ▸ hc)
  · exact decide_eq_true (closing_one_line maximum c hc).1

/-- The text that is sent ends with the query's null character. -/
theorem cString_wrapped_of_mem {sql : String} (h : '\x00' ∈ sql.toList) (maximum : Nat) :
    cString (wrapped sql maximum) = "SELECT * FROM (".toList ++ cString sql := by
  rw [cString_wrapped, List.takeWhile_append, if_neg, cString]
  intro hlength
  have hall := (List.takeWhile_prefix _).eq_of_length hlength
  have hnull := List.takeWhile_eq_self_iff.mp hall _ h
  exact absurd hnull (by decide)

/-- The wrapper's tokens come first, then those of what follows. -/
theorem tokens_wrapped_of_reads {sql : String} {maximum : Nat} {text : List Char}
    {ls : List (LexemeKind × List Char)}
    (hsent : cString (wrapped sql maximum) = "SELECT * FROM (".toList ++ text)
    (h : Reads S.next text ls []) :
    tokens S (wrapped sql maximum) = some (openingTokens ++ ls.filterMap (·.1.token?)) := by
  obtain ⟨opening, hopening, htokens⟩ := reads_opening S text
  rw [tokens_eq_some_iff, hsent]
  refine ⟨opening ++ ls, hopening.trans h, ?_⟩
  rw [List.filterMap_append, htokens]

theorem tokens_wrapped {sql : String} {query : List Token} (hclosed : EndsClosed S sql.toList)
    (h : tokens S sql = some query) (maximum : Nat) :
    tokens S (wrapped sql maximum) =
      some (openingTokens ++ (query ++ closingTokens maximum)) := by
  obtain ⟨hnull, hlast⟩ := hclosed
  obtain ⟨ls, hls, rfl⟩ := (tokens_eq_some_iff S).mp h
  rw [cString_of_notMem hnull] at hls
  obtain ⟨rest, hrest, htokens⟩ := reads_closing S maximum
  have hline : ∀ c ∈ (closing maximum).tail, isNewline c = false :=
    fun c hc => (closing_one_line maximum c (List.mem_of_mem_tail hc)).2
  have hquery : Reads S.next (sql.toList ++ closing maximum) ls (closing maximum) :=
    hls.append (keeps_parenthesis S hline) fun _ => hlast ls (lexemes_eq_some_iff.mpr hls)
  rw [tokens_wrapped_of_reads S (cString_wrapped_of_notMem hnull maximum) (hquery.trans hrest),
    List.filterMap_append, htokens]

/-- The closing parenthesis is lost, in a comment or behind a null character. -/
theorem tokens_wrapped_of_open {sql : String} {query : List Token}
    (hopen : ¬ EndsClosed S sql.toList) (h : tokens S sql = some query) (maximum : Nat) :
    tokens S (wrapped sql maximum) = some (openingTokens ++ query) := by
  obtain ⟨ls, hls, rfl⟩ := (tokens_eq_some_iff S).mp h
  by_cases hnull : '\x00' ∈ sql.toList
  · exact tokens_wrapped_of_reads S (cString_wrapped_of_mem hnull maximum) hls
  · rw [cString_of_notMem hnull] at hls
    simp only [EndsClosed, not_and, not_forall, not_not] at hopen
    obtain ⟨ls', hls', ⟨k, cs⟩, hlast, hk⟩ := hopen hnull
    cases (lexemes_eq_some_iff.mpr hls).symm.trans hls'
    subst hk
    obtain ⟨before, rfl⟩ := List.getLast?_eq_some_iff.mp hlast
    have hline : ∀ c ∈ (closing maximum).tail, isNewline c = false :=
      fun c hc => (closing_one_line maximum c (List.mem_of_mem_tail hc)).2
    have hread := reads_comment S hline hls
    rw [tokens_wrapped_of_reads S (cString_wrapped_of_notMem hnull maximum) hread,
      List.filterMap_append, List.filterMap_append]
    rfl

end Query

/-! ## Accepted queries -/

/-- The text of the analysis is the one that was parsed. -/
theorem analyzeSelect_sql {lower : String → String} {P : Parsers} {sql : String}
    {analysis : QueryAnalysis} (h : analyzeSelect lower P sql = .ok analysis) :
    analysis.sql = String.ofList (trimStatement sql) ∧ ';' ∉ trimStatement sql ∧
      ∃ root, P.parseSql analysis.sql = some [root] ∧ selectRoot root ≠ none := by
  simp only [analyzeSelect] at h
  split at h
  · cases h
  rename_i hone
  split at h
  · cases h
  · rename_i root hparse
    split at h
    next => cases h
    next into locking hroot =>
      split at h
      · cases h
      split at h
      · cases h
      rw [bind_eq_ok] at h
      obtain ⟨scan, -, ha⟩ := h
      cases ha
      refine ⟨rfl, fun hsemicolon => hone (.inr hsemicolon), root, hparse, ?_⟩
      rw [hroot]
      exact Option.some_ne_none _
  · cases h

/-- **Wrapping.** The text sent for an accepted query has the tokens of the query between
    those of the wrapper iff the query has no null character and does not end in a `--`
    comment. -/
theorem wrapped_iff (S : PgScanner) (G : PgGrammar) (lower : String → String) (P : Parsers)
    (hpglast : ∀ text trees, P.parseSql text = some trees → rawParser S G text = some trees)
    (sql : String) (analysis : QueryAnalysis) (maximum : Nat)
    (h : analyzeSelect lower P sql = .ok analysis) :
    WrapsQuery S G analysis.sql maximum ↔ EndsClosed S (trimStatement sql) := by
  obtain ⟨hsql, hsemicolon, root, hparse, hroot⟩ := analyzeSelect_sql h
  have htext : analysis.sql.toList = trimStatement sql := by rw [hsql, String.toList_ofList]
  obtain ⟨query, hquery, hgrammar⟩ := Option.bind_eq_some_iff.mp (hpglast _ _ hparse)
  rw [← htext]
  constructor
  · rintro ⟨query', root', hquery', -, hsent, -⟩
    by_contra hopen
    have hlost := tokens_wrapped_of_open S hopen hquery' maximum
    have hlength := congrArg List.length (Option.some.inj (hsent.symm.trans hlost))
    simp [closingTokens] at hlength
  · intro hclosed
    have hsent := tokens_wrapped S hclosed hquery maximum
    refine ⟨query, root, hquery, hgrammar, hsent, ?_⟩
    rw [rawParser, hsent]
    refine G.subquery query root maximum (semicolon_notMem_tokens S hquery ?_) hgrammar hroot
    rwa [htext]

/-! ## A scanner -/

/-- The length of a block comment after its start; comments nest. -/
def commentEnd : Nat → List Char → Option Nat
  | _, [] => none
  | _, [_] => none
  | depth, a :: b :: text =>
      if a = '*' ∧ b = '/' then
        if depth = 0 then some 2 else (commentEnd (depth - 1) text).map (· + 2)
      else if a = '/' ∧ b = '*' then (commentEnd (depth + 1) text).map (· + 2)
      else (commentEnd depth (b :: text)).map (· + 1)

/-- The length of a quoted text after its first quote; a doubled quote is part of it. -/
def quoteEnd (q : Char) : List Char → Option Nat
  | [] => none
  | [a] => if a = q then some 1 else none
  | a :: b :: text =>
      if a = q then if b = q then (quoteEnd q text).map (· + 2) else some 1
      else (quoteEnd q (b :: text)).map (· + 1)

/-- A lexeme of the characters that satisfy `p`. -/
def run (p : Char → Bool) (text : List Char) : Nat := (text.takeWhile p).length

/-- PostgreSQL's scanner for words, numbers, plain quoted texts, single special characters,
    blanks and comments. -/
def exampleNext : Scanner Char LexemeKind
  | [] => none
  | c :: text =>
      if c = '-' ∧ text.head? = some '-' then
        some (.lineComment, 2 + run (fun a => !isNewline a) text.tail)
      else if c = '/' ∧ text.head? = some '*' then
        (commentEnd 0 text.tail).map fun n => (.blockComment, 2 + n)
      else if c = '\x27' ∨ c = '"' then
        (quoteEnd c text).map fun n =>
          (.token (.other (String.ofList (c :: text.take n))), 1 + n)
      else if isScannerSpace c then some (.whitespace, 1 + run isScannerSpace text)
      else if c.isDigit then
        some (.token (.number (String.ofList (c :: text.takeWhile Char.isDigit))),
          1 + run Char.isDigit text)
      else if isWordChar c then
        some (.token (.word (String.ofList (c :: text.takeWhile isWordChar))),
          1 + run isWordChar text)
      else some (.token (.special c), 1)

theorem commentEnd_append (extra : List Char) : ∀ (depth : Nat) (text : List Char) (n : Nat),
    commentEnd depth text = some n → commentEnd depth (text ++ extra) = some n := by
  intro depth text
  fun_induction commentEnd depth text with
  | case1 depth => intro n h; cases h
  | case2 depth a => intro n h; cases h
  | case3 a b text hend =>
      intro n h
      simpa [commentEnd, hend] using h
  | case4 depth a b text hend hdepth ih =>
      intro n h
      obtain ⟨m, hm, rfl⟩ := Option.map_eq_some_iff.mp h
      simp [commentEnd, hend, hdepth, ih m hm]
  | case5 depth a b text hend hstart ih =>
      intro n h
      obtain ⟨m, hm, rfl⟩ := Option.map_eq_some_iff.mp h
      simp [commentEnd, hstart, ih m hm]
  | case6 depth a b text hend hstart ih =>
      intro n h
      obtain ⟨m, hm, rfl⟩ := Option.map_eq_some_iff.mp h
      simp only [List.cons_append] at ih ⊢
      simp [commentEnd, hend, hstart, ih m hm]

theorem quoteEnd_append {q : Char} (hq : q ≠ ')') (line : List Char) :
    ∀ (text : List Char) (n : Nat), quoteEnd q text = some n →
      quoteEnd q (text ++ ')' :: line) = some n ∧ n ≤ text.length := by
  intro text
  fun_induction quoteEnd q text with
  | case1 => intro n h; cases h
  | case2 =>
      intro n h
      cases h
      simp [quoteEnd, hq.symm]
  | case3 a ha => intro n h; cases h
  | case4 text ih =>
      intro n h
      obtain ⟨m, hm, rfl⟩ := Option.map_eq_some_iff.mp h
      simp [quoteEnd, ih m hm]
  | case5 b text hb =>
      intro n h
      cases h
      simp [quoteEnd, hb]
  | case6 a b text ha ih =>
      intro n h
      obtain ⟨m, hm, rfl⟩ := Option.map_eq_some_iff.mp h
      obtain ⟨hread, hlength⟩ := ih m hm
      simp only [List.cons_append, List.length_cons] at hread hlength ⊢
      simp [quoteEnd, ha, hread]
      omega

theorem takeWhile_parenthesis {p : Char → Bool} (hp : p ')' = false) (text line : List Char) :
    (text ++ ')' :: line).takeWhile p = text.takeWhile p := by
  have hstop : (')' :: line).takeWhile p = [] := by simp [hp]
  rw [List.takeWhile_append, hstop, List.append_nil]
  split
  next hall => exact ((List.takeWhile_prefix p).eq_of_length hall).symm
  next => rfl

/-- The character after a lexeme's first one. -/
theorem head?_parenthesis {a : Char} (ha : a ≠ ')') (text line : List Char) :
    (text ++ ')' :: line).head? = some a ↔ text.head? = some a := by
  cases text with
  | nil => simp [ha.symm]
  | cons b text => simp

theorem tail_parenthesis {a : Char} {text : List Char} (h : text.head? = some a)
    (line : List Char) : (text ++ ')' :: line).tail = text.tail ++ ')' :: line := by
  cases text with
  | nil => cases h
  | cons b text => rfl

theorem exampleNext_parenthesis (k : LexemeKind) (n : Nat) (text line : List Char)
    (hk : k ≠ .lineComment) (h : exampleNext text = some (k, n)) :
    exampleNext (text ++ ')' :: line) = some (k, n) := by
  cases text with
  | nil => cases h
  | cons c text =>
      simp only [exampleNext, List.cons_append, head?_parenthesis (a := '-') (by decide),
        head?_parenthesis (a := '*') (by decide)] at h ⊢
      split at h
      · cases h
        exact absurd rfl hk
      rename_i hline
      rw [if_neg hline]
      split at h
      · -- A block comment.
        rename_i hblock
        rw [if_pos hblock, tail_parenthesis hblock.2]
        obtain ⟨m, hm, hkind⟩ := Option.map_eq_some_iff.mp h
        rw [commentEnd_append _ _ _ _ hm]
        exact congrArg some hkind
      rename_i hblock
      rw [if_neg hblock]
      split at h
      · -- A quoted text.
        rename_i hquote
        rw [if_pos hquote]
        obtain ⟨m, hm, hkind⟩ := Option.map_eq_some_iff.mp h
        have hne : c ≠ ')' := by
          rintro rfl
          revert hquote
          decide
        obtain ⟨hread, hlength⟩ := quoteEnd_append hne line text m hm
        rw [hread, Option.map_some, List.take_append_of_le_length hlength]
        exact congrArg some hkind
      rename_i hquote
      rw [if_neg hquote]
      -- A run of characters of one class, or one character.
      simp only [run, takeWhile_parenthesis (p := isScannerSpace) rfl,
        takeWhile_parenthesis (p := Char.isDigit) rfl, takeWhile_parenthesis (p := isWordChar) rfl]
      exact h

theorem isDigit_not_word {c : Char} (h : c.isDigit = true) : isWordChar c = false := by
  have hne : c ≠ '_' := isDigit_ne h rfl
  have hle : c.val.toNat ≤ 57 :=
    UInt32.le_iff_toNat_le.mp (of_decide_eq_true (Bool.and_eq_true_iff.mp h).2)
  have hge : ∀ d : Char, 57 < d.val.toNat → ¬ d.val ≤ c.val := by
    intro d hd hdc
    have := UInt32.le_iff_toNat_le.mp hdc
    omega
  have hupper : c.isUpper = false := decide_eq_false fun hc => hge 'A' (by decide) hc.1
  have hlower : c.isLower = false :=
    Bool.and_eq_false_iff.mpr (.inl (decide_eq_false (hge 'a' (by decide))))
  show (c.isUpper || c.isLower || c == '_') = false
  rw [hupper, hlower, beq_eq_false_iff_ne.mpr hne]
  rfl

/-- A character of a class that has none of the scanner's other first characters. -/
theorem exampleNext_of_class {p : Char → Bool} (c : Char) (text : List Char) (hc : p c = true)
    (hdash : p '-' = false) (hslash : p '/' = false) (hquote : p '\x27' = false)
    (hdouble : p '"' = false) :
    exampleNext (c :: text) =
      if isScannerSpace c then some (.whitespace, 1 + run isScannerSpace text)
      else if c.isDigit then
        some (.token (.number (String.ofList (c :: text.takeWhile Char.isDigit))),
          1 + run Char.isDigit text)
      else if isWordChar c then
        some (.token (.word (String.ofList (c :: text.takeWhile isWordChar))),
          1 + run isWordChar text)
      else some (.token (.special c), 1) := by
  have hne : ∀ a, p a = false → c ≠ a := by
    rintro a ha rfl
    rw [hc] at ha
    cases ha
  simp only [exampleNext, hne '-' hdash, hne '/' hslash, hne '\x27' hquote, hne '"' hdouble,
    false_and, or_false, if_false]

/-- The characters of a run that the text goes on after. -/
theorem takeWhile_run {p : Char → Bool} {w rest : List Char} (hw : ∀ c ∈ w, p c = true)
    (hrest : rest.takeWhile p = []) : (w ++ rest).takeWhile p = w := by
  rw [List.takeWhile_append_of_pos hw, hrest, List.append_nil]

def exampleScanner : PgScanner where
  next := exampleNext
  word := by
    intro w rest hne hw
    obtain ⟨c, cs, rfl⟩ := List.exists_cons_of_ne_nil hne
    obtain ⟨hc, hcs⟩ := List.forall_mem_cons.mp hw
    have hspace : isScannerSpace c = false := by
      have hother : ∀ a, isWordChar a = false → (c == a) = false := by
        rintro a ha
        rw [beq_eq_false_iff_ne]
        rintro rfl
        rw [hc] at ha
        cases ha
      simp only [isScannerSpace, hother ' ' rfl, hother '\t' rfl, hother '\n' rfl,
        hother '\r' rfl, hother '\x0b' rfl, hother '\x0c' rfl, Bool.or_false]
    have hdigit : c.isDigit = false := by
      by_contra hdigit
      rw [isDigit_not_word (by simpa using hdigit)] at hc
      cases hc
    have hrun := takeWhile_run hcs (show (' ' :: rest).takeWhile isWordChar = [] from rfl)
    rw [List.cons_append, exampleNext_of_class c _ hc rfl rfl rfl rfl]
    simp [hspace, hdigit, hc, run, hrun, Nat.add_comm]
  number := by
    intro ds hne hds
    obtain ⟨d, ds, rfl⟩ := List.exists_cons_of_ne_nil hne
    obtain ⟨hd, hds⟩ := List.forall_mem_cons.mp hds
    have hrun := List.takeWhile_eq_self_iff.mpr hds
    rw [exampleNext_of_class d _ hd rfl rfl rfl rfl]
    simp [isDigit_not_space hd, hd, run, hrun, Nat.add_comm]
  asterisk _ := rfl
  parenthesis := by
    rintro c rest (rfl | rfl)
    · rfl
    · rfl
  of_special := by
    intro c text n h
    cases text with
    | nil => cases h
    | cons a text =>
        simp only [exampleNext] at h
        split at h
        · cases h
        split at h
        · obtain ⟨m, -, hkind⟩ := Option.map_eq_some_iff.mp h
          cases hkind
        split at h
        · obtain ⟨m, -, hkind⟩ := Option.map_eq_some_iff.mp h
          cases hkind
        split at h
        · cases h
        split at h
        · cases h
        split at h
        · cases h
        · cases h
          exact ⟨text, rfl⟩
  space := by
    intro c rest hc
    rw [exampleNext_of_class ' ' _ (p := isScannerSpace) rfl rfl rfl rfl rfl]
    have hrun : (c :: rest).takeWhile isScannerSpace = [] := by simp [hc]
    rw [run, hrun]
    rfl
  lineComment _ := rfl
  of_lineComment := by
    intro text n h
    cases text with
    | nil => cases h
    | cons c text =>
        simp only [exampleNext] at h
        split at h
        next hline =>
          obtain ⟨rest, rfl⟩ := List.head?_eq_some_iff.mp hline.2
          exact ⟨rest, by rw [hline.1]⟩
        next =>
          -- No other branch reads a line comment.
          split at h
          · obtain ⟨m, -, hkind⟩ := Option.map_eq_some_iff.mp h
            cases hkind
          split at h
          · obtain ⟨m, -, hkind⟩ := Option.map_eq_some_iff.mp h
            cases hkind
          split at h
          · cases h
          split at h
          · cases h
          split at h
          · cases h
          · cases h
  beforeParenthesis k n text line hk _ h := exampleNext_parenthesis k n text line hk h

/-! ## A grammar, and two queries -/

/-- The limit and the query between the wrapper's tokens. -/
def unwrap (ts : List Token) : Option (String × List Token) :=
  if ts.take 4 = openingTokens then
    match (ts.drop 4).drop (ts.length - 9) with
    | [.special ')', .word "AS", .word "hermes_scoped_query", .word "LIMIT", .number n] =>
        some (n, (ts.drop 4).take (ts.length - 9))
    | _ => none
  else none

/-- `SELECT` with one string constant, as written. -/
def selectConst (text : String) : PgTree :=
  .query (.selectStmt false false) false []
    [.node (.other "ResTarget") [.node (.aConst text) []]]

/-- `scopedQuery` with the limit as written. -/
def limitedTo (n : String) (root : PgTree) : PgTree :=
  .query (.selectStmt false false) false []
    [.node (.other "ResTarget") [.node (.other "ColumnRef") [.node (.other "A_Star") []]],
     rangeSubselect root, .node (.aConst n) []]

/-- One string constant, wrapped any number of times. -/
def exampleParse : Nat → List Token → Option PgTree
  | 0, _ => none
  | fuel + 1, ts =>
      match unwrap ts with
      | some (n, query) => (exampleParse fuel query).map (limitedTo n)
      | none =>
          match ts with
          | [.word "SELECT", .other text] => some (selectConst text)
          | _ => none

theorem unwrap_wrapper (query : List Token) (maximum : Nat) :
    unwrap (openingTokens ++ (query ++ closingTokens maximum)) =
      some (toString (maximum + 1), query) := by
  have hlength : (openingTokens ++ (query ++ closingTokens maximum)).length - 9
      = query.length := by
    simp [openingTokens, closingTokens]
  have htake : (openingTokens ++ (query ++ closingTokens maximum)).take 4 = openingTokens := rfl
  have hdrop : (openingTokens ++ (query ++ closingTokens maximum)).drop 4
      = query ++ closingTokens maximum := rfl
  rw [unwrap, if_pos htake, hdrop, hlength, List.drop_left, List.take_left]
  rfl

theorem exampleParse_mono {fuel : Nat} : ∀ {more : Nat} {ts : List Token} {root : PgTree},
    exampleParse fuel ts = some root → fuel ≤ more → exampleParse more ts = some root := by
  induction fuel with
  | zero => intro more ts root h; cases h
  | succ fuel ih =>
      intro more ts root h hmore
      obtain ⟨more, rfl⟩ : ∃ m, more = m + 1 := ⟨more - 1, by omega⟩
      simp only [exampleParse] at h ⊢
      split at h
      next n query _ =>
        obtain ⟨inner, hinner, rfl⟩ := Option.map_eq_some_iff.mp h
        rw [ih hinner (show fuel ≤ more by omega), Option.map_some]
      next => exact h

theorem exampleParse_wrapper {fuel : Nat} {query : List Token} {root : PgTree} (maximum : Nat)
    (h : exampleParse fuel query = some root) :
    exampleParse (fuel + 1) (openingTokens ++ (query ++ closingTokens maximum)) =
      some (scopedQuery maximum root) := by
  simp only [exampleParse, unwrap_wrapper, h]
  rfl

def exampleGrammar : PgGrammar where
  parse ts := (exampleParse ts.length ts).map ([·])
  subquery := by
    intro query root maximum _ h _
    obtain ⟨inner, hinner, hone⟩ := Option.map_eq_some_iff.mp h
    cases hone
    have hlength : (openingTokens ++ (query ++ closingTokens maximum)).length
        = query.length + 8 + 1 := by
      simp [openingTokens, closingTokens]
    have hfuel := exampleParse_mono hinner (show query.length ≤ query.length + 8 by omega)
    rw [hlength, exampleParse_wrapper maximum hfuel]
    rfl

/-- pglast, over the same scanner and grammar. -/
def exampleParsers : Parsers where
  parseSql := rawParser exampleScanner exampleGrammar
  parse _ _ := none

/-- The analysis of a text with these two tokens. -/
theorem analyzeSelect_constant {text constant : String}
    (htrim : trimStatement text = text.toList) (hone : ¬ (text.toList = [] ∨ ';' ∈ text.toList))
    (htokens : tokens exampleScanner text = some [.word "SELECT", .other constant]) :
    analyzeSelect asciiLower exampleParsers text = .ok ⟨text, [], [], false⟩ := by
  have hparse : exampleParsers.parseSql text = some [selectConst constant] := by
    show rawParser exampleScanner exampleGrammar text = some [selectConst constant]
    rw [rawParser, htokens]
    rfl
  simp only [analyzeSelect, htrim, String.ofList_toList, hparse, if_neg hone]
  rfl

/-- Comments and quotes that are closed do no harm. -/
def closedText : String := "SELECT -- one\n 'a -- b' /* ) /* */ */"

theorem wrapped_iff_closedText :
    EndsClosed exampleScanner (trimStatement closedText) ∧
      ∃ analysis, analyzeSelect asciiLower exampleParsers closedText = .ok analysis ∧
        WrapsQuery exampleScanner exampleGrammar analysis.sql 10 := by
  have htrim : trimStatement closedText = closedText.toList := by decide +kernel
  have haccepted := analyzeSelect_constant htrim (by decide +kernel)
    (show tokens exampleScanner closedText = some [.word "SELECT", .other "'a -- b'"] by
      decide +kernel)
  have hclosed : EndsClosed exampleScanner (trimStatement closedText) := by
    have hlast : ((lexemes exampleNext closedText.toList).bind List.getLast?).map (·.1)
        = some .blockComment := by decide +kernel
    rw [htrim]
    refine ⟨by decide +kernel, ?_⟩
    intro ls hls last hmem
    have hls' : lexemes exampleNext closedText.toList = some ls := hls
    rw [hls', Option.bind_some, hmem] at hlast
    have hkind : last.1 = .blockComment := Option.some.inj hlast
    rw [hkind]
    decide
  exact ⟨hclosed, _, haccepted, (wrapped_iff exampleScanner exampleGrammar asciiLower
    exampleParsers (fun _ _ h => h) closedText _ 10 haccepted).mpr hclosed⟩

def openText : String := "SELECT 'a' -- all of it"

/-- A query that ends in a comment is accepted, and what is sent for it is not parsed. -/
theorem trailingComment_unwraps :
    ∃ analysis, analyzeSelect asciiLower exampleParsers openText = .ok analysis ∧
      rawParser exampleScanner exampleGrammar (wrapped analysis.sql 10) = none ∧
      ¬ WrapsQuery exampleScanner exampleGrammar analysis.sql 10 := by
  have haccepted := analyzeSelect_constant
    (show trimStatement openText = openText.toList by decide +kernel) (by decide +kernel)
    (show tokens exampleScanner openText = some [.word "SELECT", .other "'a'"] by decide +kernel)
  have hsent : tokens exampleScanner (wrapped openText 10) =
      some (openingTokens ++ [.word "SELECT", .other "'a'"]) := by decide +kernel
  have hnone : rawParser exampleScanner exampleGrammar (wrapped openText 10) = none := by
    rw [rawParser, hsent]
    rfl
  refine ⟨_, haccepted, hnone, ?_⟩
  rintro ⟨query, root, -, -, -, hparsed⟩
  rw [hnone] at hparsed
  cases hparsed

end PostgresMcp
end HermesPlatform
