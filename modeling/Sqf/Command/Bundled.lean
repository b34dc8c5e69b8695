import Sqf.Command.Descriptor

/-!
# Bundled commands

The commands every script can use, by topic. Together they make the table that
names are looked up in unless other commands are added to it.
-/

namespace Sqf.Bundled

/-- Used without operands. -/
def alone (returns : TypeDescriptor) : Usage := ⟨none, none, returns⟩

/-- Used in front of an operand. -/
def before (right returns : TypeDescriptor) : Usage := ⟨none, some right, returns⟩

/-- Used between two operands. -/
def between (left right returns : TypeDescriptor) : Usage := ⟨some left, some right, returns⟩

/-- A type that is told more about. -/
def explained (type description : String) : TypeDescriptor := .typed type description false false

/-- An element that may be left out. -/
def optional (type description : String) : TypeDescriptor := .typed type description true false

/-- A last element that may repeat. -/
def repeated (type description : String) : TypeDescriptor := .typed type description false true

/-- A last element that may be left out or repeat. -/
def repeatedOptional (type description : String) : TypeDescriptor :=
  .typed type description true true

/-- An array of these elements. -/
def several (elements : List TypeDescriptor) : TypeDescriptor := .array elements "" false

/-- An array of these elements that is told more about. -/
def described (description : String) (elements : List TypeDescriptor) : TypeDescriptor :=
  .array elements description false

/-- Operators, as symbols and as words. -/
def operators : List Descriptor := [
  ⟨"+", [
    before "Number" "Number",
    before "Array" "Array",
    between "Number" "Number" "Number",
    between "String" "String" "String",
    between "Array" "Array" "Array"]⟩,
  ⟨"-", [
    before "Number" "Number",
    between "Number" "Number" "Number",
    between "Array" "Array" "Array"]⟩,
  ⟨"*", [between "Number" "Number" "Number"]⟩,
  ⟨"/", [between "Number" "Number" "Number", between "Config" "String" "Config"]⟩,
  ⟨"%", [between "Number" "Number" "Number"]⟩,
  ⟨"mod", [between "Number" "Number" "Number"]⟩,
  ⟨"^", [between "Number" "Number" "Number"]⟩,
  ⟨"atan2", [between "Number" "Number" "Number"]⟩,
  ⟨"max", [between "Number" "Number" "Number"]⟩,
  ⟨"min", [between "Number" "Number" "Number"]⟩,
  ⟨"==", [between "Any" "Any" "Boolean"]⟩,
  ⟨"!=", [between "Any" "Any" "Boolean"]⟩,
  ⟨"<", [between "Number" "Number" "Boolean"]⟩,
  ⟨">", [between "Number" "Number" "Boolean"]⟩,
  ⟨"<=", [between "Number" "Number" "Boolean"]⟩,
  ⟨">=", [between "Number" "Number" "Boolean"]⟩,
  ⟨">>", [between "Config" "String" "Config"]⟩,
  ⟨"!", [before "Boolean" "Boolean"]⟩,
  ⟨"not", [before "Boolean" "Boolean"]⟩,
  ⟨"&&", [
    between "Boolean" "Boolean" "Boolean",
    between "Boolean" (explained "Code" "lazily evaluated condition") "Boolean"]⟩,
  ⟨"and", [
    between "Boolean" "Boolean" "Boolean",
    between "Boolean" (explained "Code" "lazily evaluated condition") "Boolean"]⟩,
  ⟨"||", [
    between "Boolean" "Boolean" "Boolean",
    between "Boolean" (explained "Code" "lazily evaluated condition") "Boolean"]⟩,
  ⟨"or", [
    between "Boolean" "Boolean" "Boolean",
    between "Boolean" (explained "Code" "lazily evaluated condition") "Boolean"]⟩,
  ⟨"#", [between "Array" "Number" "Any"]⟩]

/-- Commands without operands: values of the engine. -/
def values : List Descriptor := [
  ⟨"true", [alone "Boolean"]⟩,
  ⟨"false", [alone "Boolean"]⟩,
  ⟨"isServer", [alone "Boolean"]⟩,
  ⟨"isDedicated", [alone "Boolean"]⟩,
  ⟨"hasInterface", [alone "Boolean"]⟩,
  ⟨"isMultiplayer", [alone "Boolean"]⟩,
  ⟨"player", [alone "Object"]⟩,
  ⟨"objNull", [alone "Object"]⟩,
  ⟨"time", [alone "Number"]⟩,
  ⟨"serverTime", [alone "Number"]⟩,
  ⟨"diag_tickTime", [alone "Number"]⟩,
  ⟨"pi", [alone "Number"]⟩,
  ⟨"daytime", [alone "Number"]⟩,
  ⟨"west", [alone "Side"]⟩,
  ⟨"east", [alone "Side"]⟩,
  ⟨"independent", [alone "Side"]⟩,
  ⟨"resistance", [alone "Side"]⟩,
  ⟨"civilian", [alone "Side"]⟩,
  ⟨"sideLogic", [alone "Side"]⟩,
  ⟨"playerSide", [alone "Side"]⟩,
  ⟨"allUnits", [alone "Array"]⟩,
  ⟨"allPlayers", [alone "Array"]⟩,
  ⟨"allGroups", [alone "Array"]⟩,
  ⟨"allDead", [alone "Array"]⟩,
  ⟨"playableUnits", [alone "Array"]⟩,
  ⟨"agents", [alone "Array"]⟩,
  ⟨"missionNamespace", [alone "Namespace"]⟩,
  ⟨"uiNamespace", [alone "Namespace"]⟩,
  ⟨"profileNamespace", [alone "Namespace"]⟩,
  ⟨"parsingNamespace", [alone "Namespace"]⟩,
  ⟨"configFile", [alone "Config"]⟩,
  ⟨"missionConfigFile", [alone "Config"]⟩,
  ⟨"campaignConfigFile", [alone "Config"]⟩,
  ⟨"grpNull", [alone "Group"]⟩,
  ⟨"controlNull", [alone "Control"]⟩,
  ⟨"displayNull", [alone "Display"]⟩,
  ⟨"scriptNull", [alone "Script"]⟩,
  ⟨"locationNull", [alone "Location"]⟩,
  ⟨"taskNull", [alone "Task"]⟩,
  ⟨"teamMemberNull", [alone "TeamMember"]⟩,
  ⟨"nil", [alone "Any"]⟩,
  ⟨"worldName", [alone "String"]⟩,
  ⟨"briefingName", [alone "String"]⟩,
  ⟨"createHashMap", [alone "HashMap"]⟩,
  ⟨"exit", [alone "Nothing"]⟩,
  ⟨"break", [alone "Nothing"]⟩,
  ⟨"continue", [alone "Nothing"]⟩]

/-- Output, text, calls and control of scripts. -/
def control : List Descriptor := [
  ⟨"hint", [before "String" "Nothing", before "StructuredText" "Nothing"]⟩,
  ⟨"hintSilent", [before "String" "Nothing", before "StructuredText" "Nothing"]⟩,
  ⟨"systemChat", [before "String" "Nothing"]⟩,
  ⟨"diag_log", [before "Any" "Nothing"]⟩,
  ⟨"str", [before "Any" "String"]⟩,
  ⟨"format", [
    before (described "format string and arguments" ["String", repeated "Any" "arguments"])
      "String"]⟩,
  ⟨"formatText", [before (several ["String", repeated "Any" "arguments"]) "StructuredText"]⟩,
  ⟨"parseText", [before "String" "StructuredText"]⟩,
  ⟨"text", [before "String" "StructuredText", before "Location" "String"]⟩,
  ⟨"call", [before "Code" "Any", between "Any" "Code" "Any"]⟩,
  ⟨"spawn", [between "Any" "Code" "Script"]⟩,
  ⟨"execVM", [before "String" "Script", between "Any" "String" "Script"]⟩,
  ⟨"compile", [before "String" "Code"]⟩,
  ⟨"preprocessFileLineNumbers", [before "String" "String"]⟩,
  ⟨"isNil", [before "String" "Boolean", before "Code" "Boolean"]⟩,
  ⟨"waitUntil", [before "Code" "Nothing"]⟩,
  ⟨"sleep", [before "Number" "Nothing"]⟩,
  ⟨"uiSleep", [before "Number" "Nothing"]⟩,
  ⟨"try", [before "Code" "Any"]⟩,
  ⟨"catch", [between "Any" "Code" "Any"]⟩,
  ⟨"throw", [before "Any" "Nothing"]⟩,
  ⟨"scopeName", [before "String" "Nothing"]⟩,
  ⟨"breakOut", [before "String" "Nothing"]⟩,
  ⟨"onEachFrame", [before "Code" "Nothing"]⟩,
  ⟨"terminate", [before "Script" "Nothing"]⟩,
  ⟨"scriptDone", [before "Script" "Boolean"]⟩,
  ⟨"private", [before "String" "Nothing", before (several [repeated "String" ""]) "Nothing"]⟩,
  ⟨"params", [before "Array" "Boolean", between "Any" "Array" "Boolean"]⟩,
  ⟨"param", [before "Array" "Any", between "Any" "Array" "Any"]⟩]

/-- Arrays, strings and hash maps. -/
def collections : List Descriptor := [
  ⟨"count", [
    before "Array" "Number",
    before "String" "Number",
    before "HashMap" "Number",
    between "Code" "Array" "Number"]⟩,
  ⟨"forEach", [between "Code" "Array" "Nothing", between "Code" "HashMap" "Nothing"]⟩,
  ⟨"select", [
    between "Array" "Number" "Any",
    between "Array" "Boolean" "Any",
    between "Array" (several ["Number", optional "Number" ""]) "Array",
    between "Array" "Code" "Array",
    between "String" (several ["Number", optional "Number" ""]) "String",
    between "Config" "Number" "Config"]⟩,
  ⟨"pushBack", [between "Array" "Any" "Number"]⟩,
  ⟨"pushBackUnique", [between "Array" "Any" "Number"]⟩,
  ⟨"append", [between "Array" "Array" "Nothing"]⟩,
  ⟨"set", [
    between "Array" (several ["Number", "Any"]) "Nothing",
    between "HashMap" (several ["Any", "Any", optional "Boolean" ""]) "Boolean"]⟩,
  ⟨"resize", [between "Array" "Number" "Nothing"]⟩,
  ⟨"deleteAt", [between "Array" "Number" "Any"]⟩,
  ⟨"find", [between "Array" "Any" "Number", between "String" "String" "Number"]⟩,
  ⟨"findIf", [between "Array" "Code" "Number"]⟩,
  ⟨"apply", [between "Array" "Code" "Array"]⟩,
  ⟨"in", [
    between "Any" "Array" "Boolean",
    between "String" "String" "Boolean",
    between "Any" "HashMap" "Boolean"]⟩,
  ⟨"arrayIntersect", [between "Array" "Array" "Array"]⟩,
  ⟨"joinString", [between "Array" "String" "String"]⟩,
  ⟨"splitString", [between "String" "String" "Array"]⟩,
  ⟨"sort", [between "Array" "Boolean" "Nothing"]⟩,
  ⟨"reverse", [before "Array" "Nothing"]⟩,
  ⟨"selectRandom", [before "Array" "Any"]⟩,
  ⟨"selectMax", [before "Array" "Any"]⟩,
  ⟨"selectMin", [before "Array" "Any"]⟩,
  ⟨"toString", [before "Array" "String"]⟩,
  ⟨"toArray", [before "String" "Array"]⟩,
  ⟨"toUpper", [before "String" "String"]⟩,
  ⟨"toLower", [before "String" "String"]⟩,
  ⟨"parseNumber", [before "String" "Number"]⟩,
  ⟨"typeName", [before "Any" "String"]⟩,
  ⟨"isEqualTo", [between "Any" "Any" "Boolean"]⟩,
  ⟨"isNotEqualTo", [between "Any" "Any" "Boolean"]⟩,
  ⟨"isEqualType", [between "Any" "Any" "Boolean"]⟩,
  ⟨"createHashMapFromArray", [before "Array" "HashMap"]⟩,
  ⟨"get", [between "HashMap" "Any" "Any"]⟩,
  ⟨"getOrDefault", [between "HashMap" (several ["Any", "Any"]) "Any"]⟩,
  ⟨"keys", [before "HashMap" "Array"]⟩,
  ⟨"values", [before "HashMap" "Array"]⟩]

/-- Numbers and vectors. -/
def mathematics : List Descriptor := [
  ⟨"floor", [before "Number" "Number"]⟩,
  ⟨"ceil", [before "Number" "Number"]⟩,
  ⟨"round", [before "Number" "Number"]⟩,
  ⟨"abs", [before "Number" "Number"]⟩,
  ⟨"sqrt", [before "Number" "Number"]⟩,
  ⟨"sin", [before "Number" "Number"]⟩,
  ⟨"cos", [before "Number" "Number"]⟩,
  ⟨"tan", [before "Number" "Number"]⟩,
  ⟨"random", [before "Number" "Number"]⟩,
  ⟨"ln", [before "Number" "Number"]⟩,
  ⟨"exp", [before "Number" "Number"]⟩,
  ⟨"vectorAdd", [between "Position3D" "Position3D" "Position3D"]⟩,
  ⟨"vectorDiff", [between "Position3D" "Position3D" "Position3D"]⟩,
  ⟨"vectorMultiply", [between "Position3D" "Number" "Position3D"]⟩,
  ⟨"vectorMagnitude", [before "Position3D" "Number"]⟩,
  ⟨"vectorNormalized", [before "Position3D" "Position3D"]⟩]

/-- Objects, groups and positions. -/
def world : List Descriptor := [
  ⟨"getPos", [before "Object" "Position3D"]⟩,
  ⟨"getPosATL", [before "Object" "Position3D"]⟩,
  ⟨"getPosASL", [before "Object" "Position3D"]⟩,
  ⟨"getPosWorld", [before "Object" "Position3D"]⟩,
  ⟨"position", [before "Object" "Position3D"]⟩,
  ⟨"velocity", [before "Object" "Position3D"]⟩,
  ⟨"setPos", [between "Object" "Position3D" "Nothing"]⟩,
  ⟨"setPosATL", [between "Object" "Position3D" "Nothing"]⟩,
  ⟨"setPosASL", [between "Object" "Position3D" "Nothing"]⟩,
  ⟨"setPosWorld", [between "Object" "Position3D" "Nothing"]⟩,
  ⟨"setVelocity", [between "Object" "Position3D" "Nothing"]⟩,
  ⟨"setDir", [between "Object" "Number" "Nothing"]⟩,
  ⟨"getDir", [before "Object" "Number"]⟩,
  ⟨"distance", [
    between "Object" "Object" "Number",
    between "Position3D" "Position3D" "Number",
    between "Object" "Position3D" "Number",
    between "Position3D" "Object" "Number"]⟩,
  ⟨"createVehicle", [
    between "String" "Position3D" "Object",
    before (several ["String", "Position3D", optional "Array" "markers", optional "Number"
      "placement radius", optional "String" "special"]) "Object"]⟩,
  ⟨"deleteVehicle", [before "Object" "Nothing"]⟩,
  ⟨"alive", [before "Object" "Boolean"]⟩,
  ⟨"typeOf", [before "Object" "String"]⟩,
  ⟨"vehicle", [before "Object" "Object"]⟩,
  ⟨"side", [before "Object" "Side", before "Group" "Side"]⟩,
  ⟨"group", [before "Object" "Group"]⟩,
  ⟨"units", [before "Group" "Array", before "Object" "Array"]⟩,
  ⟨"leader", [before "Group" "Object", before "Object" "Object"]⟩,
  ⟨"createGroup", [before "Side" "Group"]⟩,
  ⟨"joinSilent", [between "Array" "Group" "Nothing"]⟩,
  ⟨"join", [between "Array" "Group" "Nothing"]⟩,
  ⟨"damage", [before "Object" "Number"]⟩,
  ⟨"setDamage", [between "Object" "Number" "Nothing"]⟩,
  ⟨"isNull", [
    before "Object" "Boolean",
    before "Group" "Boolean",
    before "Control" "Boolean",
    before "Display" "Boolean",
    before "Script" "Boolean",
    before "Location" "Boolean",
    before "Task" "Boolean"]⟩,
  ⟨"local", [before "Object" "Boolean"]⟩,
  ⟨"isPlayer", [before "Object" "Boolean"]⟩,
  ⟨"name", [before "Object" "String"]⟩,
  ⟨"getPlayerUID", [before "Object" "String"]⟩,
  ⟨"enableSimulation", [between "Object" "Boolean" "Nothing"]⟩,
  ⟨"hideObject", [between "Object" "Boolean" "Nothing"]⟩,
  ⟨"removeAllWeapons", [before "Object" "Nothing"]⟩,
  ⟨"addWeapon", [between "Object" "String" "Nothing"]⟩,
  ⟨"addItem", [between "Object" "String" "Nothing"]⟩,
  ⟨"addMagazine", [between "Object" "String" "Nothing"]⟩,
  ⟨"addAction", [
    between "Object" (several ["String", "Any", repeatedOptional "Any" "arguments"]) "Number"]⟩,
  ⟨"removeAction", [between "Object" "Number" "Nothing"]⟩,
  ⟨"addEventHandler", [between "Object" (several ["String", "Any"]) "Number"]⟩,
  ⟨"removeEventHandler", [between "Object" (several ["String", "Number"]) "Nothing"]⟩,
  ⟨"nearestObjects", [before (several ["Any", "Array", "Number"]) "Array"]⟩,
  ⟨"setLightColor", [between "Object" "ColorRgb" "Nothing"]⟩,
  ⟨"agent", [before "TeamMember" "Object"]⟩]

/-- Variables of namespaces, and remote calls. -/
def namespaces : List Descriptor := [
  ⟨"setVariable", [
    between "Object" (several ["String", "Any", optional "Boolean" "public"]) "Nothing",
    between "Namespace" (several ["String", "Any", optional "Boolean" "public"]) "Nothing",
    between "Group" (several ["String", "Any", optional "Boolean" "public"]) "Nothing"]⟩,
  ⟨"getVariable", [
    between "Object" "String" "Any",
    between "Object" (several ["String", "Any"]) "Any",
    between "Namespace" "String" "Any",
    between "Namespace" (several ["String", "Any"]) "Any",
    between "Group" "String" "Any",
    between "Group" (several ["String", "Any"]) "Any"]⟩,
  ⟨"publicVariable", [before "String" "Nothing"]⟩,
  ⟨"publicVariableServer", [before "String" "Nothing"]⟩,
  ⟨"allVariables", [before "Namespace" "Array"]⟩,
  ⟨"remoteExec", [
    before (several ["String", optional "Any" "", optional "Any" ""]) "Any",
    between "Any" (several ["String", optional "Any" "", optional "Any" ""]) "Any"]⟩,
  ⟨"remoteExecCall", [
    between "Any" (several ["String", optional "Any" "", optional "Any" ""]) "Any"]⟩]

/-- Config entries, markers, dialogs and tasks. -/
def interface : List Descriptor := [
  ⟨"getText", [before "Config" "String"]⟩,
  ⟨"getNumber", [before "Config" "Number"]⟩,
  ⟨"getArray", [before "Config" "Array"]⟩,
  ⟨"isClass", [before "Config" "Boolean"]⟩,
  ⟨"isText", [before "Config" "Boolean"]⟩,
  ⟨"isNumber", [before "Config" "Boolean"]⟩,
  ⟨"configName", [before "Config" "String"]⟩,
  ⟨"getMarkerPos", [before "String" "Position3D"]⟩,
  ⟨"getMarkerSize", [before "String" "Position2D"]⟩,
  ⟨"createMarker", [before (several ["String", "Array"]) "String"]⟩,
  ⟨"deleteMarker", [before "String" "Nothing"]⟩,
  ⟨"setMarkerPos", [between "String" "Array" "Nothing"]⟩,
  ⟨"setMarkerColor", [between "String" "String" "Nothing"]⟩,
  ⟨"setMarkerText", [between "String" "String" "Nothing"]⟩,
  ⟨"findDisplay", [before "Number" "Display"]⟩,
  ⟨"displayCtrl", [between "Display" "Number" "Control"]⟩,
  ⟨"ctrlSetText", [between "Control" "String" "Nothing"]⟩,
  ⟨"ctrlText", [before "Control" "String"]⟩,
  ⟨"ctrlSetTextColor", [between "Control" "ColorRgba" "Nothing"]⟩,
  ⟨"createDialog", [before "String" "Boolean"]⟩,
  ⟨"closeDialog", [before "Number" "Nothing"]⟩,
  ⟨"createSimpleTask", [between "Object" (several ["String", optional "Task" ""]) "Task"]⟩,
  ⟨"setTaskState", [between "Task" "String" "Nothing"]⟩,
  ⟨"taskState", [before "Task" "String"]⟩]

/-- All bundled commands. -/
def descriptors : List Descriptor :=
  operators ++ values ++ control ++ collections ++ mathematics ++ world ++ namespaces ++
    interface

end Sqf.Bundled

namespace Sqf

/-- The table of the bundled commands. -/
def Table.bundled : Table :=
  match Table.ofDescriptors Bundled.descriptors with
  | .ok table => table
  | .error _ => .empty

end Sqf
