import Sqf.Double
import Sqf.Span
import Sqf.Token

/-!
# Config files

A config file is a tree of classes. A class has entries, which are properties
with a value and classes again. Case does not matter in names, and where
several entries have the same name the first one counts.
-/

namespace Sqf.Config

/-- The value of a property. -/
inductive Value where
  | number (x : Double)
  | string (s : String)
  /-- Text without quotes, kept as it is written: a macro or a constant. -/
  | word (s : String)
  | array (items : List Value)

namespace Value

/-- The text of a string or word. -/
def text? : Value → Option String
  | string s => some s
  | word s => some s
  | _ => none

end Value

/-- Written `name = value;`. -/
structure Property where
  name : String
  value : Value
  /-- Written with brackets behind the name. -/
  isArray : Bool
  /-- Written with `+=`: the elements are added to those of the base class. -/
  appends : Bool
  span : Span

mutual

inductive Entry where
  | property (p : Property)
  | nested (c : Class)

/-- Written `class name : parent { entries };`. -/
structure Class where
  name : String
  parent : Option String
  entries : List Entry
  /-- Only announced, as in `class name;`. -/
  isForward : Bool
  span : Span

end

namespace Entry

def span : Entry → Span
  | property p => p.span
  | nested c => c.span

def class? : Entry → Option Class
  | nested c => some c
  | property _ => none

def property? : Entry → Option Property
  | property p => some p
  | nested _ => none

end Entry

/-- The classes among entries. -/
def classesOf (entries : List Entry) : List Class := entries.filterMap Entry.class?

/-- The properties among entries. -/
def propertiesOf (entries : List Entry) : List Property := entries.filterMap Entry.property?

/-- The first class among entries that has a name. -/
def classNamed? (entries : List Entry) (name : String) : Option Class :=
  (classesOf entries).find? fun c => sameName c.name name

/-- The class at the end of a chain of names. -/
def classAt? (entries : List Entry) : List String → Option Class
  | [] => none
  | [name] => classNamed? entries name
  | name :: names => (classNamed? entries name).bind fun c => classAt? c.entries names

/-- The names in a path, which slashes separate; empty ones do not count. -/
def pathNames (path : String) : List String := (path.splitOn "/").filter fun name => name ≠ ""

/-- The class at a path such as `CfgFunctions/TAG/Category`. -/
def findClass? (entries : List Entry) (path : String) : Option Class :=
  classAt? entries (pathNames path)

namespace Class

/-- The first property of the class that has a name. -/
def property? (c : Class) (name : String) : Option Property :=
  (propertiesOf c.entries).find? fun p => sameName p.name name

/-- The text of a property, if it is there and has one. -/
def text? (c : Class) (name : String) : Option String :=
  (c.property? name).bind fun p => p.value.text?

end Class

end Sqf.Config
