import Sqf.Config

/-!
# Functions of a config file

The class `CfgFunctions` lists the functions that scripts can call: it has a
class for each tag, that one a class for each category, and that one a class
for each function.
-/

namespace Sqf.Config

/-- A function that a config file declares. -/
structure Function where
  tag : String
  category : String
  name : String
  /-- The file given for the function, else the one given for its category. -/
  file : Option String
deriving DecidableEq, Repr

namespace Function

/-- The name that scripts call the function by. -/
def fullName (f : Function) : String := f.tag ++ "_fnc_" ++ f.name

end Function

/-- The functions of a category. -/
def categoryFunctions (tag : String) (category : Class) : List Function :=
  (classesOf category.entries).map fun f =>
    ⟨tag, category.name, f.name, (f.text? "file").or (category.text? "file")⟩

/-- The functions of a tag, which goes by its property `tag` or else by its name. -/
def tagFunctions (tagClass : Class) : List Function :=
  let tag := (tagClass.text? "tag").getD tagClass.name
  (classesOf tagClass.entries).flatMap (categoryFunctions tag)

/-- The functions that a config file declares, in the order they stand there. -/
def functions (entries : List Entry) : List Function :=
  match classNamed? entries "CfgFunctions" with
  | some c => (classesOf c.entries).flatMap tagFunctions
  | none => []

end Sqf.Config
