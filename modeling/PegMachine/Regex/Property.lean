import PegMachine.Regex.Ast
import PegMachine.Regex.CharSet
import PegMachine.Unicode.Category
import PegMachine.Unicode.Script

/-!
# Classes by property

The set of characters that a property name stands for. Names are compared loosely: case, blanks,
dashes and underscores do not matter, nor does a leading `is`.
-/

namespace PegMachine.Regex

/-- A name without what does not matter in names. -/
def looseName (name : List Char) : List Char :=
  let kept := (name.filter fun c => !(c = ' ' || c = '_' || c = '-') && c.toNat < 0x80).map
    Char.toLower
  match name, kept with
  | a :: b :: _, _ :: _ :: rest =>
    if (a = 'i' || a = 'I') && (b = 's' || b = 'S') then
      if rest = ['c'] then kept else rest
    else kept
  | _, _ => kept

/-- Whether a loosely compared name is one of some names. -/
def isNamed (loose : List Char) (names : List String) : Bool :=
  names.any fun n => looseName n.toList = loose

/-- The union of the tables of some categories. -/
def ofCategories (cs : List Unicode.Category) : CharSet :=
  CharSet.unionAll (cs.map fun c => .table c.table)

/-- Categories that stand for several others, with their names. -/
def categoryGroups : List (List String × List Unicode.Category) :=
  open Unicode.Category in
  [(["L", "Letter"], letters),
   (["LC", "Cased_Letter"], [uppercaseLetter, lowercaseLetter, titlecaseLetter]),
   (["M", "Mark", "Combining_Mark"], marks),
   (["N", "Number"], numbers),
   (["P", "Punctuation", "punct"], punctuation),
   (["S", "Symbol"], symbols),
   (["Z", "Separator"], separators)]

/-- The set of a general category, by a loosely compared name. -/
def category? (loose : List Char) : Option CharSet :=
  if isNamed loose ["any"] then some .all
  else if isNamed loose ["assigned"] then some (ofCategories Unicode.Category.all)
  else if isNamed loose ["ascii"] then some (.range '\x00' '\x7f')
  else if isNamed loose ["Cn", "Unassigned"] then
    some (.compl (ofCategories Unicode.Category.all))
  else if isNamed loose ["C", "Other"] then
    some (.compl (ofCategories (Unicode.Category.graphic ++ Unicode.Category.separators)))
  else if isNamed loose ["Cs", "Surrogate"] then some .empty
  else if isNamed loose ["digit"] then some (.table Unicode.Category.decimalNumber.table)
  else if isNamed loose ["cntrl"] then some (.table Unicode.Category.control.table)
  else
    match categoryGroups.find? fun g => isNamed loose g.1 with
    | some (_, cs) => some (ofCategories cs)
    | none =>
      (Unicode.Category.all.find? fun c => isNamed loose [c.short, c.long]).map fun c =>
        .table c.table

/-- Short names of binary properties. -/
def propertyAliases : List (String × String) :=
  [("Alpha", "Alphabetic"), ("Lower", "Lowercase"), ("Upper", "Uppercase"),
   ("WSpace", "White_Space"), ("space", "White_Space"), ("CI", "Case_Ignorable"),
   ("Gr_Ext", "Grapheme_Extend"), ("Hex", "Hex_Digit"), ("AHex", "ASCII_Hex_Digit"),
   ("Ideo", "Ideographic"), ("XIDS", "XID_Start"), ("XIDC", "XID_Continue"),
   ("IDS", "ID_Start"), ("IDC", "ID_Continue"), ("Join_C", "Join_Control"), ("Dia", "Diacritic"),
   ("Ext", "Extender"), ("DI", "Default_Ignorable_Code_Point")]

/-- The set of a binary property, by a loosely compared name. -/
def binary? (loose : List Char) : Option CharSet :=
  let full := ((propertyAliases.find? fun a => isNamed loose [a.1]).map fun a =>
    looseName a.2.toList).getD loose
  (Unicode.Property.all.find? fun p => isNamed full [p.name]).map fun p => .table p.table

/-- The set of a script, by a loosely compared name. -/
def script? (loose : List Char) : Option CharSet :=
  (Unicode.Script.all.find? fun s => isNamed loose s.names).map fun s => .table s.table

/-- The set of a query, if there is such a property. -/
def PropertyQuery.set? : PropertyQuery → Option CharSet
  | .named name =>
    let loose := looseName name
    -- Three short names mean a category although a property has them too.
    let categoryFirst := isNamed loose ["cf", "sc", "lc"]
    ((if categoryFirst then none else binary? loose).or (category? loose)).or (script? loose)
  | .valued name value equal =>
    let property := looseName name
    let loose := looseName value
    let set :=
      if isNamed property ["General_Category", "gc"] then category? loose
      else if isNamed property ["Script", "sc", "Script_Extensions", "scx"] then script? loose
      else none
    if equal then set else set.map .compl

end PegMachine.Regex
