/-!
# Names and literals in SQL

A name or a literal stands between two quotes, and a quote inside it is written twice. Which
character is the quote depends on what is quoted and on the dialect.
-/

namespace BatchTransfer.Sql

/-- The characters with every quote doubled. -/
def doubled (quote : Char) (cs : List Char) : List Char :=
  cs.flatMap fun c => if c == quote then [quote, quote] else [c]

/-- The characters between quotes. -/
def quoted (quote : Char) (cs : List Char) : List Char :=
  quote :: (doubled quote cs ++ [quote])

/-- Lists of characters with a comma and a blank between them. -/
def commaSeparated (items : List (List Char)) : List Char :=
  [',', ' '].intercalate items

end BatchTransfer.Sql
