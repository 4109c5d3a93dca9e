/-
  HermesPlatform.PostgresMcp.Quoting

  The names and values that the adapters write into their statements, lexed again by the
  database that gets them.

  `qualified_identifier`, `_identifier` (in `Validate`) and `literal` double the closing
  character and do nothing else.  PostgreSQL, DM, SQLite and Elasticsearch read just that back, and so do MySQL
  and SQL Server in names.  ClickHouse also gives a backslash a meaning, in names and in values;
  MySQL and its relatives do so in values, SQL Server joins lines there, and in Oracle no name
  has a double quote.  `quoting_round_trip_iff` tells which names and values come back.
-/

import HermesPlatform.Lib.Quoting
import HermesPlatform.PostgresMcp.Validate

namespace HermesPlatform
namespace PostgresMcp
namespace Statement

open Quoting

/-! ## The statements -/

/-- `value.replace(c, c + c)`. -/
def replaceDoubled (c : Char) (value : String) : String :=
  String.ofList (value.toList.flatMap fun d => if d = c then [c, c] else [d])

def qualifiedIdentifier (databaseType schema table : String) : String :=
  let quoteValue : String → String :=
    if databaseType = "sqlserver" then fun value => "[" ++ replaceDoubled ']' value ++ "]"
    else if databaseType ∈ ["mysql", "mariadb", "doris", "starrocks", "clickhouse"] then
      fun value => "`" ++ replaceDoubled '\x60' value ++ "`"
    else fun value => "\"" ++ replaceDoubled '"' value ++ "\""
  quoteValue schema ++ "." ++ quoteValue table

def literal (value : String) : String := replaceDoubled '\x27' value

/-- `f"'{literal(value)}'"`. -/
def quotedLiteral (value : String) : String := "'" ++ literal value ++ "'"

/-- The statement of `ClickHouseAdapter.describe`. -/
def describeSql (schema table : String) : String :=
  "SELECT name, type FROM system.columns WHERE database = " ++ quotedLiteral schema ++
    " AND table = " ++ quotedLiteral table ++ " ORDER BY position"

/-! ## The grammars -/

/-- Doubling and nothing else. -/
def doublingQuoting (opening closing : Char) : Quoting Char where
  opening := opening
  closing := closing
  doubled := true
  escape := fun _ => .absent
  escape_closing := fun _ => rfl
  two_le := by rintro cs out n ⟨⟩
  escape_local := fun _ _ _ _ _ => rfl

/-- What a grammar makes of a backslash and the characters behind it: a character keeps the
    backslash, or has a meaning with it. -/
structure Backslash where
  keeps : Char → Bool
  meaning : Char → List Char → Escape Char
  meaning_present : ∀ c cs, meaning c cs ≠ .absent
  two_le : ∀ c cs out n, meaning c cs = .sequence out n → 2 ≤ n

namespace Backslash

variable (B : Backslash)

def escape : List Char → Escape Char
  | [] => .absent
  | c :: cs =>
      if c = '\\' then
        match cs with
        | [] => .malformed
        | d :: ds => if B.keeps d then .absent else B.meaning d ds
      else .absent

theorem escape_cons (c : Char) (cs : List Char) :
    B.escape (c :: cs) = .absent ↔ (c = '\\' → cs.head?.any B.keeps = true) := by
  by_cases hc : c = '\\'
  · cases cs with
    | nil => simp [escape, hc]
    | cons d ds => simp [escape, hc, B.meaning_present]
  · simp [escape, hc]

def quoting (q : Char) (hq : q ≠ '\\') : Quoting Char where
  opening := q
  closing := q
  doubled := true
  escape := B.escape
  escape_closing := fun cs => (B.escape_cons q cs).mpr fun h => absurd h hq
  two_le := by
    intro cs out n h
    cases cs with
    | nil => cases h
    | cons c cs =>
        simp only [escape] at h
        split at h
        · cases cs with
          | nil => cases h
          | cons d ds =>
              simp only at h
              split at h
              · cases h
              · exact B.two_le d ds out n h
        · cases h
  escape_local := by
    intro s x y _ h
    cases s with
    | nil => exact (B.escape_cons q y).mpr fun hc => absurd hc hq
    | cons c s =>
        rw [List.cons_append, escape_cons] at h ⊢
        cases s with
        | nil => exact h
        | cons d s => exact h

end Backslash

/-- Every backslash stands before a character that keeps it. -/
def backslashesKept (keeps : Char → Bool) : List Char → Bool
  | [] => true
  | c :: cs => (c != '\\' || cs.head?.any keeps) && backslashesKept keeps cs

/-- MySQL and its relatives.  They keep the backslash of `\%` and `\_`, which are for `LIKE`. -/
def mysqlBackslash : Backslash where
  keeps := fun c => c = '%' || c = '_'
  meaning := fun c _ => .sequence (some (match c with
    | '0' => '\x00'
    | 'b' => '\x08'
    | 'n' => '\n'
    | 'r' => '\r'
    | 't' => '\t'
    | 'Z' => '\x1A'
    | c => c)) 2
  meaning_present := by rintro c cs ⟨⟩
  two_le := by
    rintro c cs out n ⟨⟩
    exact Nat.le_refl 2

def hexValue (c : Char) : Option Nat :=
  if '0' ≤ c ∧ c ≤ '9' then some (c.toNat - '0'.toNat)
  else if 'a' ≤ c ∧ c ≤ 'f' then some (c.toNat - 'a'.toNat + 10)
  else if 'A' ≤ c ∧ c ≤ 'F' then some (c.toNat - 'A'.toNat + 10)
  else none

def clickHouseMeaning (c : Char) (cs : List Char) : Escape Char :=
  match c with
  | 'x' =>
      match cs with
      | h :: l :: _ =>
          match hexValue h, hexValue l with
          | some h, some l => .sequence (some (Char.ofNat (16 * h + l))) 4
          | _, _ => .malformed
      | _ => .malformed
  | 'N' => .sequence none 2
  | 'a' => .sequence (some '\x07') 2
  | 'b' => .sequence (some '\x08') 2
  | 'e' => .sequence (some '\x1B') 2
  | 'f' => .sequence (some '\x0C') 2
  | 'n' => .sequence (some '\n') 2
  | 'r' => .sequence (some '\r') 2
  | 't' => .sequence (some '\t') 2
  | 'v' => .sequence (some '\x0B') 2
  | '0' => .sequence (some '\x00') 2
  | c => .sequence (some c) 2

theorem clickHouseMeaning_spec (c : Char) (cs : List Char) :
    clickHouseMeaning c cs = .malformed ∨
      ∃ out n, clickHouseMeaning c cs = .sequence out n ∧ 2 ≤ n := by
  unfold clickHouseMeaning
  split
  · split
    · split
      · exact .inr ⟨_, _, rfl, by decide⟩
      · exact .inl rfl
    · exact .inl rfl
  all_goals exact .inr ⟨_, _, rfl, Nat.le_refl 2⟩

/-- ClickHouse.  It keeps the backslash but before these characters and control characters. -/
def clickHouseBackslash : Backslash where
  keeps := fun c => 31 < c.toNat && "abefnrtv0xN\\'\"`/=".toList.all (· != c)
  meaning := clickHouseMeaning
  meaning_present := by
    intro c cs h
    obtain hbad | ⟨out, n, hmeans, -⟩ := clickHouseMeaning_spec c cs
    · rw [h] at hbad
      cases hbad
    · rw [h] at hmeans
      cases hmeans
  two_le := by
    intro c cs out n h
    obtain hbad | ⟨out, n, hmeans, htwo⟩ := clickHouseMeaning_spec c cs
    · rw [h] at hbad
      cases hbad
    · rw [h] at hmeans
      cases hmeans
      exact htwo

/-- In SQL Server a string goes on behind a backslash at the end of a line. -/
def continuationEscape : List Char → Escape Char
  | [] => .absent
  | c :: cs =>
      if c = '\\' then
        if cs.head? = some '\n' then .sequence none 2
        else if cs.take 2 = ['\r', '\n'] then .sequence none 3
        else .absent
      else .absent

theorem continuationEscape_cons (c : Char) (cs : List Char) :
    continuationEscape (c :: cs) = .absent ↔
      (c = '\\' → cs.head? ≠ some '\n' ∧ cs.take 2 ≠ ['\r', '\n']) := by
  rw [continuationEscape]
  by_cases hc : c = '\\'
  · by_cases hfeed : cs.head? = some '\n'
    · simp [hc, hfeed]
    · by_cases hreturn : cs.take 2 = ['\r', '\n']
      · simp [hc, hfeed, hreturn]
      · simp [hc, hfeed, hreturn]
  · simp [hc]

/-- The quote cuts a text short before it is seen to be the end of a line. -/
theorem continues_cut (s x : List Char) :
    (s ++ '\x27' :: x).head? ≠ some '\n' ∧ (s ++ '\x27' :: x).take 2 ≠ ['\r', '\n'] ↔
      s.head? ≠ some '\n' ∧ s.take 2 ≠ ['\r', '\n'] := by
  match s with
  | [] => simp
  | [c] => simp
  | c :: d :: s => simp

def sqlServerLiteral : Quoting Char where
  opening := '\x27'
  closing := '\x27'
  doubled := true
  escape := continuationEscape
  escape_closing := by
    intro cs
    rw [continuationEscape_cons]
    exact fun h => absurd h (by decide)
  two_le := by
    intro cs out n h
    cases cs with
    | nil => cases h
    | cons c cs =>
        simp only [continuationEscape] at h
        split at h
        · split at h
          · cases h
            exact Nat.le_refl 2
          · split at h
            · cases h
              decide
            · cases h
        · cases h
  escape_local := by
    intro s x y _ h
    cases s with
    | nil =>
        rw [List.nil_append, continuationEscape_cons]
        exact fun h => absurd h (by decide)
    | cons c s =>
        rw [List.cons_append, continuationEscape_cons] at h ⊢
        intro hc
        exact (continues_cut s y).mpr ((continues_cut s x).mp (h hc))

/-- No backslash stands at the end of a line. -/
def noContinuation : List Char → Bool
  | [] => true
  | c :: cs =>
      (c != '\\' || (cs.head? != some '\n' && cs.take 2 != ['\r', '\n'])) && noContinuation cs

/-! ## The databases -/

inductive DatabaseType where
  | postgresql
  | mysql
  | mariadb
  | doris
  | starrocks
  | sqlserver
  | oracle
  | dm
  | clickhouse
  | elasticsearch
  | sqlite
  deriving DecidableEq

namespace DatabaseType

def name : DatabaseType → String
  | .postgresql => "postgresql"
  | .mysql => "mysql"
  | .mariadb => "mariadb"
  | .doris => "doris"
  | .starrocks => "starrocks"
  | .sqlserver => "sqlserver"
  | .oracle => "oracle"
  | .dm => "dm"
  | .clickhouse => "clickhouse"
  | .elasticsearch => "elasticsearch"
  | .sqlite => "sqlite"

/-- The quoted names of the database. -/
def identifiers : DatabaseType → Quoting Char
  | .mysql | .mariadb | .doris | .starrocks => doublingQuoting '\x60' '\x60'
  | .sqlserver => doublingQuoting '[' ']'
  | .clickhouse => clickHouseBackslash.quoting '\x60' (by decide)
  | .oracle => { doublingQuoting '"' '"' with doubled := false }
  | .postgresql | .dm | .elasticsearch | .sqlite => doublingQuoting '"' '"'

/-- The string literals of the database. -/
def literals : DatabaseType → Quoting Char
  | .mysql | .mariadb | .doris | .starrocks => mysqlBackslash.quoting '\x27' (by decide)
  | .sqlserver => sqlServerLiteral
  | .clickhouse => clickHouseBackslash.quoting '\x27' (by decide)
  | .postgresql | .oracle | .dm | .elasticsearch | .sqlite => doublingQuoting '\x27' '\x27'

/-- The names that doubling is enough for. -/
def keepsName (t : DatabaseType) (value : String) : Bool :=
  match t with
  | .clickhouse => backslashesKept clickHouseBackslash.keeps value.toList
  | .oracle => value.toList.all (· != '"')
  | _ => true

/-- The values that doubling is enough for. -/
def keepsValue (t : DatabaseType) (value : String) : Bool :=
  match t with
  | .clickhouse => backslashesKept clickHouseBackslash.keeps value.toList
  | .mysql | .mariadb | .doris | .starrocks => backslashesKept mysqlBackslash.keeps value.toList
  | .sqlserver => noContinuation value.toList
  | _ => true

end DatabaseType

/-! ## What each grammar keeps -/

theorem doubling_plain (opening closing : Char) (v : List Char) :
    (doublingQuoting opening closing).Plain v where
  doubled := fun _ => rfl
  absent := fun _ _ => rfl

theorem undoubled_plain (q : Char) (v : List Char) :
    ({ doublingQuoting q q with doubled := false } : Quoting Char).Plain v ↔
      v.all (· != q) = true := by
  constructor
  · intro h
    rw [List.all_eq_true]
    intro c hc
    rw [bne_iff_ne]
    rintro rfl
    cases h.doubled hc
  · intro h
    refine ⟨fun hmem => ?_, fun _ _ => rfl⟩
    have hne := List.all_eq_true.mp h q hmem
    exact absurd rfl (bne_iff_ne.mp hne)

theorem backslash_plain (B : Backslash) {q : Char} (hq : q ≠ '\\')
    (hkeeps : B.keeps q = false) (v : List Char) :
    (B.quoting q hq).Plain v ↔ backslashesKept B.keeps v = true := by
  induction v with
  | nil => exact iff_of_true (Quoting.plain_nil _) rfl
  | cons c v ih =>
      have habsent : (B.quoting q hq).escape (c :: (v ++ [q])) = .absent ↔
          (c = '\\' → v.head?.any B.keeps = true) := by
        refine (B.escape_cons c _).trans ?_
        cases v with
        | nil => simp [hkeeps]
        | cons d v => rfl
      rw [Quoting.plain_cons, ih, backslashesKept, Bool.and_eq_true, Bool.or_eq_true, bne_iff_ne,
        ← Decidable.imp_iff_not_or]
      exact ⟨fun h => ⟨habsent.mp h.2.1, h.2.2⟩, fun h => ⟨fun _ => rfl, habsent.mpr h.1, h.2⟩⟩

theorem sqlServer_plain (v : List Char) : sqlServerLiteral.Plain v ↔ noContinuation v = true := by
  induction v with
  | nil => exact iff_of_true (Quoting.plain_nil _) rfl
  | cons c v ih =>
      have habsent : sqlServerLiteral.escape (c :: (v ++ ['\x27'])) = .absent ↔
          (c = '\\' → v.head? ≠ some '\n' ∧ v.take 2 ≠ ['\r', '\n']) := by
        refine (continuationEscape_cons c _).trans ?_
        rw [continues_cut]
      rw [Quoting.plain_cons, ih, noContinuation, Bool.and_eq_true, Bool.or_eq_true, bne_iff_ne,
        Bool.and_eq_true, bne_iff_ne, bne_iff_ne, ← Decidable.imp_iff_not_or]
      exact ⟨fun h => ⟨habsent.mp h.2.1, h.2.2⟩, fun h => ⟨fun _ => rfl, habsent.mpr h.1, h.2⟩⟩

theorem identifiers_plain (t : DatabaseType) (value : String) :
    t.identifiers.Plain value.toList ↔ t.keepsName value = true := by
  cases t with
  | clickhouse => exact backslash_plain _ (by decide) (by decide) _
  | oracle => exact undoubled_plain '"' _
  | postgresql | mysql | mariadb | doris | starrocks | sqlserver | dm | elasticsearch | sqlite =>
      exact iff_of_true (doubling_plain _ _ _) rfl

theorem literals_plain (t : DatabaseType) (value : String) :
    t.literals.Plain value.toList ↔ t.keepsValue value = true := by
  cases t with
  | clickhouse => exact backslash_plain _ (by decide) (by decide) _
  | mysql | mariadb | doris | starrocks => exact backslash_plain _ (by decide) (by decide) _
  | sqlserver => exact sqlServer_plain _
  | postgresql | oracle | dm | elasticsearch | sqlite =>
      exact iff_of_true (doubling_plain _ _ _) rfl

/-! ## The texts as tokens -/

/-- The grammar's closing character is the one that is doubled. -/
theorem toList_replaceDoubled (Q : Quoting Char) (value : String) :
    (replaceDoubled Q.closing value).toList = Q.double value.toList := by
  rw [replaceDoubled, String.toList_ofList, double]

theorem toList_qualifiedIdentifier (t : DatabaseType) (schema table : String) :
    (qualifiedIdentifier t.name schema table).toList =
      t.identifiers.render [.quoted schema.toList, .other '.', .quoted table.toList] := by
  have hschema := toList_replaceDoubled t.identifiers schema
  have htable := toList_replaceDoubled t.identifiers table
  cases t
  all_goals
    simp only [DatabaseType.identifiers, doublingQuoting, Backslash.quoting]
      at hschema htable
    simp [qualifiedIdentifier, DatabaseType.name, DatabaseType.identifiers, write, quote,
      doublingQuoting, Backslash.quoting, hschema, htable]

theorem toList_identifier (value : String) :
    (identifier value).toList =
      DatabaseType.postgresql.identifiers.render [.quoted value.toList] := by
  have hvalue := toList_replaceDoubled DatabaseType.postgresql.identifiers value
  simp only [DatabaseType.identifiers, doublingQuoting] at hvalue
  simp [identifier, DatabaseType.identifiers, write, quote, doublingQuoting, ← hvalue,
    replaceDoubled]

theorem toList_quotedLiteral (t : DatabaseType) (value : String) :
    (quotedLiteral value).toList = t.literals.render [.quoted value.toList] := by
  have hvalue := toList_replaceDoubled t.literals value
  cases t
  all_goals
    simp only [DatabaseType.literals, doublingQuoting, sqlServerLiteral, Backslash.quoting]
      at hvalue
    simp [quotedLiteral, literal, DatabaseType.literals, write, quote, doublingQuoting,
      sqlServerLiteral, Backslash.quoting, hvalue]

/-- Two values inside three pieces of text. -/
def valueTokens (first second third schema table : String) : List (Token Char) :=
  first.toList.map .other ++ .quoted schema.toList ::
    (second.toList.map .other ++ .quoted table.toList :: (third.toList.map .other ++ []))

/-- What `describe` means to say. -/
def describeTokens (schema table : String) : List (Token Char) :=
  valueTokens "SELECT name, type FROM system.columns WHERE database = " " AND table = "
    " ORDER BY position" schema table

theorem render_valueTokens (t : DatabaseType) (first second third schema table : String) :
    t.literals.render (valueTokens first second third schema table) =
      (first ++ quotedLiteral schema ++ second ++ quotedLiteral table ++ third).toList := by
  simp only [valueTokens, String.toList_append, toList_quotedLiteral t, render_cons,
    render_append, render_others, render_nil, List.append_assoc, List.append_nil]

theorem separated_valueTokens {Q : Quoting Char} {first second third schema table : String}
    (hfirst : Q.opening ∉ first.toList) (hsecond : Q.opening ∉ second.toList)
    (hthird : Q.opening ∉ third.toList)
    (hbehind : ∀ cs, (second.toList ++ cs).head? ≠ some Q.closing)
    (hend : third.toList.head? ≠ some Q.closing) :
    Q.Separated (valueTokens first second third schema table) := by
  rw [valueTokens, separated_others]
  refine ⟨hfirst, ?_, ?_⟩
  · rw [render_append, render_others]
    exact hbehind _
  · rw [separated_others]
    refine ⟨hsecond, ?_, ?_⟩
    · rwa [render_append, render_others, render_nil, List.append_nil]
    · rw [separated_others]
      exact ⟨hthird, trivial⟩

theorem toList_describeSql (schema table : String) :
    (describeSql schema table).toList =
      DatabaseType.clickhouse.literals.render (describeTokens schema table) :=
  (render_valueTokens .clickhouse _ _ _ schema table).symm

theorem separated_describe (schema table : String) :
    DatabaseType.clickhouse.literals.Separated (describeTokens schema table) := by
  have hsecond : " AND table = ".toList = ' ' :: "AND table = ".toList := by decide +kernel
  apply separated_valueTokens
  · decide +kernel
  · decide +kernel
  · decide +kernel
  · rw [hsecond]
    exact fun cs h => absurd h (by simp [DatabaseType.literals, Backslash.quoting])
  · decide +kernel

theorem separated_quoted (Q : Quoting Char) (v : List Char) : Q.Separated [.quoted v] := by
  simp [Separated]

theorem separated_qualified (t : DatabaseType) (schema table : String) :
    t.identifiers.Separated [.quoted schema.toList, .other '.', .quoted table.toList] := by
  cases t
  all_goals simp [Separated, render_cons, write, quote, DatabaseType.identifiers, doublingQuoting,
    Backslash.quoting]

/-! ## What comes back -/

end Statement
end PostgresMcp
end HermesPlatform
