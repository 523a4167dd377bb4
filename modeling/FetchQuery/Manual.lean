import FetchQuery.Text.Basic

/-!
# The manual

The pages that the command line prints, and the names under which they are found. A
page has several names; letter case does not count, and an underscore may stand for a
hyphen.
-/

set_option autoImplicit false

namespace FetchQuery.Manual

/-- A page of text from its lines. -/
def page (lines : List String) : String :=
  String.join (lines.map (· ++ "\n"))

/-- The list of pages, with the commands in short. -/
def overview : String :=
  page [
    "FXSQL DOCUMENTATION",
    "",
    "fxsql translates between a subset of SQL SELECT and FetchXML, the XML query",
    "language of Dataverse. SQL is parsed, checked and written out as FetchXML;",
    "FetchXML is read back into SQL, with warnings for anything SQL cannot say",
    "exactly.",
    "",
    "DOCUMENTATION CATEGORIES",
    "",
    "  select        Select list, aliases, DISTINCT, TOP and LIMIT",
    "  joins         INNER / LEFT OUTER JOIN and how they become link-entities",
    "  filters       WHERE operators, NOT, AND/OR grouping",
    "  aggregates    COUNT, SUM, AVG, MIN, MAX and GROUP BY",
    "  ordering      ORDER BY on attributes, aliases and joined entities",
    "  fetchxml      FetchXML to SQL: what is supported and what is reported",
    "",
    "QUICK REFERENCE",
    "",
    "  fxsql to-fetchxml \"SELECT name FROM account\"",
    "  fxsql to-sql '<fetch><entity name=\"account\"><all-attributes/></entity></fetch>'",
    "  fxsql check \"SELECT name FROM account WHERE statecode = 0\"",
    "  fxsql tokens \"SELECT TOP 5 * FROM contact\"",
    "",
    "Run 'fxsql doc <category>' for detailed documentation."]

/-- The page on select lists and row limits. -/
def selectPage : String :=
  page [
    "SELECT",
    "",
    "One statement per input, optionally ending in a semicolon. Keywords are",
    "case-insensitive; identifiers keep their spelling.",
    "",
    "  SELECT [DISTINCT] [TOP n] columns FROM entity [[AS] alias] ...",
    "",
    "COLUMNS",
    "",
    "  *                       <all-attributes/>",
    "  name                    <attribute name=\"name\"/>",
    "  accountid AS id         <attribute name=\"accountid\" alias=\"id\"/>",
    "  a.*                     <all-attributes/> inside the link-entity of a",
    "",
    "Identifiers that clash with keywords or contain other characters are quoted",
    "with brackets or double quotes: [order], \"first name\".",
    "",
    "DISTINCT AND TOP",
    "",
    "  SELECT DISTINCT name FROM account       <fetch distinct=\"true\">",
    "  SELECT TOP 10 * FROM account            <fetch top=\"10\">",
    "  SELECT * FROM account LIMIT 10          same as TOP 10",
    "",
    "TOP and LIMIT cannot be combined.",
    "",
    "COMMENTS",
    "",
    "Comments in front of SELECT are carried over as XML comments before <fetch>",
    "and come back as -- lines. Other comments are dropped."]

/-- The page on joins. -/
def joinsPage : String :=
  page [
    "JOINS",
    "",
    "  [INNER] JOIN entity [[AS] alias] ON left = right      link-type=\"inner\"",
    "  LEFT [OUTER] JOIN entity [[AS] alias] ON left = right link-type=\"outer\"",
    "",
    "The ON condition must compare one column of the joined entity with one",
    "column of an entity already in scope. Either order works:",
    "",
    "  SELECT c.fullname, a.name",
    "  FROM contact c",
    "  JOIN account a ON c.parentcustomerid = a.accountid",
    "",
    "  <entity name=\"contact\">",
    "    <attribute name=\"fullname\"/>",
    "    <link-entity name=\"account\" from=\"accountid\" to=\"parentcustomerid\"",
    "                 link-type=\"inner\" alias=\"a\">",
    "      <attribute name=\"name\"/>",
    "    </link-entity>",
    "  </entity>",
    "",
    "\"from\" names the joined entity's column, \"to\" the parent's. A join whose",
    "condition references an earlier join is nested inside that link-entity.",
    "",
    "NAMES",
    "",
    "Once joins are present every column must be qualified with its entity",
    "or alias; '--allow-unqualified' binds bare names to the FROM entity",
    "instead. Two joins of the same entity need distinct aliases.",
    "",
    "NOT SUPPORTED",
    "",
    "  RIGHT JOIN, FULL JOIN, CROSS JOIN, conditions other than one equality"]

/-- The page on conditions. -/
def filtersPage : String :=
  page [
    "FILTERS",
    "",
    "  SQL                         FetchXML operator",
    "  a = v                       eq",
    "  a <> v, a != v              ne",
    "  a < v, a <= v               lt, le",
    "  a > v, a >= v               gt, ge",
    "  a LIKE 'x%'                 like",
    "  a NOT LIKE 'x%'             not-like",
    "  a IN (v1, v2)               in        (one <value> per item)",
    "  a NOT IN (v1, v2)           not-in",
    "  a BETWEEN v1 AND v2         between   (two <value> elements)",
    "  a NOT BETWEEN v1 AND v2     not-between",
    "  a IS NULL                   null",
    "  a IS NOT NULL               not-null",
    "",
    "Values are strings ('O''Brien'), numbers (-12.50) or TRUE / FALSE. A",
    "literal may come first: 100 < revenue is revenue > 100.",
    "",
    "GROUPING",
    "",
    "AND binds tighter than OR; parentheses group. Each connective becomes a",
    "<filter type=\"and\"> or <filter type=\"or\">; runs of the same connective",
    "share one filter.",
    "",
    "NOT",
    "",
    "NOT is pushed down to the conditions: NOT (a = 1 OR b IS NULL) becomes",
    "a filter of type \"and\" over ne and not-null.",
    "",
    "Conditions on joined columns carry entityname=\"alias\".",
    "",
    "NOT SUPPORTED",
    "",
    "  column-to-column comparisons, subqueries, functions, arithmetic"]

/-- The page on aggregates and grouping. -/
def aggregatesPage : String :=
  page [
    "AGGREGATES",
    "",
    "  COUNT(*)                    aggregate=\"count\" on <entity>id",
    "  COUNT(col)                  aggregate=\"count\"",
    "  COUNT(DISTINCT col)         aggregate=\"count\" distinct=\"true\"",
    "  SUM(col), AVG(col)          aggregate=\"sum\", \"avg\"",
    "  MIN(col), MAX(col)          aggregate=\"min\", \"max\"",
    "",
    "Any aggregate or GROUP BY sets aggregate=\"true\" on <fetch>. Every aggregate",
    "needs an alias in FetchXML; without AS one is generated as",
    "<function>_<column>, for example count_contactid.",
    "",
    "GROUP BY",
    "",
    "  SELECT statecode, COUNT(*) AS total FROM account GROUP BY statecode",
    "",
    "  <attribute name=\"statecode\" alias=\"statecode\" groupby=\"true\"/>",
    "  <attribute name=\"accountid\" alias=\"total\" aggregate=\"count\"/>",
    "",
    "Columns next to aggregates must be grouped. HAVING is not supported."]

/-- The page on sort orders. -/
def orderingPage : String :=
  page [
    "ORDERING",
    "",
    "  ORDER BY name                 <order attribute=\"name\" descending=\"false\"/>",
    "  ORDER BY name DESC            <order attribute=\"name\" descending=\"true\"/>",
    "  ORDER BY a.name               <order entityname=\"a\" attribute=\"name\" .../>",
    "  ORDER BY total                alias of a select item",
    "",
    "All <order> elements are written on the root <entity> in ORDER BY order,",
    "so the first item stays the primary sort key. In aggregate queries FetchXML",
    "sorts by alias, so ORDER BY on an aggregate or grouped column becomes",
    "<order alias=\"...\"/>. In other queries an alias is resolved to its",
    "attribute.",
    "",
    "When reading FetchXML, orders inside a link-entity belong to that entity."]

/-- The page on reading FetchXML. -/
def fetchXmlPage : String :=
  page [
    "FETCHXML TO SQL",
    "",
    "  fxsql to-sql [XML] [--compact] [--json]",
    "",
    "The document must have a <fetch> root with an <entity name=\"...\">.",
    "Malformed XML, a missing entity or a link-entity without name, from or to",
    "fails the translation.",
    "",
    "Everything else translates, possibly with warnings:",
    "",
    "  begins-with / ends-with     become LIKE 'x%' / LIKE '%x'",
    "  other operators             omitted",
    "  filter in a link-entity     merged into WHERE (changes outer joins)",
    "  unknown filter type         treated as \"and\"",
    "  other link-types            approximated as inner joins",
    "  count / page                count becomes TOP; page is dropped",
    "  dategrouping                grouped by the raw value",
    "  aggregate without alias     alias generated",
    "  between with != 2 values    omitted",
    "  unknown entityname          condition or order omitted",
    "  empty filters               ignored",
    "  unknown elements            ignored",
    "",
    "Warnings go to stderr; with --json the whole result is printed:",
    "",
    "  \x7b\"success\": true, \"sql\": \"...\", \"error\": null, \"warnings\": [...]\x7d"]

/-- A topic of the manual. -/
inductive Topic where
  | select | joins | filters | aggregates | ordering | fetchXml
deriving DecidableEq, Repr

/-- The page of a topic. -/
def Topic.text : Topic → String
  | .select => selectPage
  | .joins => joinsPage
  | .filters => filtersPage
  | .aggregates => aggregatesPage
  | .ordering => orderingPage
  | .fetchXml => fetchXmlPage

/-- The lower case of a character, as far as topic names are concerned: of all other
characters only the Kelvin sign has a basic Latin letter as its lower case. -/
def lowerLetter (c : Char) : Char :=
  if c = '\u212a' then 'k' else c.toLower

/-- A topic name as it is looked up: in lower case, with hyphens for underscores. -/
def normalName (name : String) : String :=
  String.ofList (name.toList.map fun c => if c = '_' then '-' else lowerLetter c)

/-- The topic with a name. -/
def Topic.ofName? (name : String) : Option Topic :=
  match normalName name with
  | "select" => some .select
  | "columns" => some .select
  | "joins" => some .joins
  | "join" => some .joins
  | "link-entity" => some .joins
  | "filters" => some .filters
  | "filter" => some .filters
  | "where" => some .filters
  | "operators" => some .filters
  | "aggregates" => some .aggregates
  | "aggregate" => some .aggregates
  | "group-by" => some .aggregates
  | "ordering" => some .ordering
  | "order" => some .ordering
  | "order-by" => some .ordering
  | "paging" => some .ordering
  | "fetchxml" => some .fetchXml
  | "fetch-xml" => some .fetchXml
  | "to-sql" => some .fetchXml
  | "warnings" => some .fetchXml
  | _ => none

/-- The text that reports a name without a topic. -/
def unknownTopicMessage (name : String) : String :=
  "Unknown category: '" ++ name ++ "'\nRun 'fxsql docs' to see available categories."

end FetchQuery.Manual
