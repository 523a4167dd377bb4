import FetchQuery.Text.Basic

/-!
# Reserved words

The reserved words of the query language. A word is reserved whatever the case of
its letters. Names of aggregate functions are not reserved.
-/

set_option autoImplicit false

namespace FetchQuery

/-- A reserved word. -/
inductive Keyword where
  | select | distinct | top | from | as | join | inner | left | right | full | cross | outer | on
  | where | and | or | not | is | null | in | between | like | order | group | by | asc | desc
  | having | limit | true | false | union | with
deriving DecidableEq, Repr

namespace Keyword

/-- The upper-case spelling. -/
def spelling : Keyword → String
  | .select => "SELECT"
  | .distinct => "DISTINCT"
  | .top => "TOP"
  | .from => "FROM"
  | .as => "AS"
  | .join => "JOIN"
  | .inner => "INNER"
  | .left => "LEFT"
  | .right => "RIGHT"
  | .full => "FULL"
  | .cross => "CROSS"
  | .outer => "OUTER"
  | .on => "ON"
  | .where => "WHERE"
  | .and => "AND"
  | .or => "OR"
  | .not => "NOT"
  | .is => "IS"
  | .null => "NULL"
  | .in => "IN"
  | .between => "BETWEEN"
  | .like => "LIKE"
  | .order => "ORDER"
  | .group => "GROUP"
  | .by => "BY"
  | .asc => "ASC"
  | .desc => "DESC"
  | .having => "HAVING"
  | .limit => "LIMIT"
  | .true => "TRUE"
  | .false => "FALSE"
  | .union => "UNION"
  | .with => "WITH"

/-- Every reserved word. -/
def all : List Keyword :=
  [.select, .distinct, .top, .from, .as, .join, .inner, .left, .right, .full, .cross, .outer, .on,
    .where, .and, .or, .not, .is, .null, .in, .between, .like, .order, .group, .by, .asc, .desc,
    .having, .limit, .true, .false, .union, .with]

/-- The reserved word that a word spells, if it spells one. -/
def ofWord? (word : String) : Option Keyword :=
  all.find? fun k => k.spelling == Text.upper word

end Keyword

end FetchQuery
