import Blueprint.Failure

/-!
# Diagnostics

Every failure of a registration or a compilation is reported as a `Diagnostic`: a code for tools, a message, maybe a
suggestion, and where in the description it arose. On its way out of nested descriptions a diagnostic is only ever
added to: a place that is set stays, so it names the innermost one, and notes are appended.
-/

namespace Blueprint

structure Location where
  category : Option String := none
  plugin : Option String := none
  parameter : Option String := none
  name : Option String := none
  /-- What was being done, innermost first. -/
  notes : List String := []
deriving DecidableEq, Inhabited

structure Diagnostic where
  code : String
  message : String
  suggestion : Option String := none
  location : Option Location := none
deriving DecidableEq, Inhabited

namespace Diagnostic

/-! ## Codes -/

def missingRequiredParameterCode := "MISSING_REQUIRED_PARAMETER"
def unknownNameCode := "UNKNOWN_NAME"
def unknownTypeCode := "UNKNOWN_TYPE"
def duplicateNameCode := "DUPLICATE_NAME"
def duplicateRegistrationCode := "DUPLICATE_REGISTRATION"
def unresolvedCompilerCode := "UNRESOLVED_COMPILER"
def invalidInputCode := "INVALID_INPUT"
def invalidPluginCode := "INVALID_PLUGIN"
def loadErrorCode := "LOAD_ERROR"
def buildErrorCode := "BUILD_ERROR"
def unknownConstructorCode := "UNKNOWN_CONSTRUCTOR"
def unknownCategoryCode := "UNKNOWN_CATEGORY"

/-! ## Adding to a diagnostic -/

/-- The location, an empty one if there is none yet. -/
def place (d : Diagnostic) : Location := d.location.getD {}

def suggest (d : Diagnostic) (suggestion : String) : Diagnostic := { d with suggestion := some suggestion }

/-- Names the category, unless one is named. -/
def inCategory (d : Diagnostic) (category : String) : Diagnostic :=
  { d with location := some { d.place with category := d.place.category.or (some category) } }

/-- Names the plugin, unless one is named. -/
def inPlugin (d : Diagnostic) (plugin : String) : Diagnostic :=
  { d with location := some { d.place with plugin := d.place.plugin.or (some plugin) } }

/-- Names the parameter, unless one is named. -/
def forParameter (d : Diagnostic) (parameter : String) : Diagnostic :=
  { d with location := some { d.place with parameter := d.place.parameter.or (some parameter) } }

/-- Names the object, unless one is named. -/
def forName (d : Diagnostic) (name : String) : Diagnostic :=
  { d with location := some { d.place with name := d.place.name.or (some name) } }

def note (d : Diagnostic) (text : String) : Diagnostic :=
  { d with location := some { d.place with notes := d.place.notes ++ [text] } }

def category? (d : Diagnostic) : Option String := d.location.bind Location.category
def plugin? (d : Diagnostic) : Option String := d.location.bind Location.plugin
def parameter? (d : Diagnostic) : Option String := d.location.bind Location.parameter
def name? (d : Diagnostic) : Option String := d.location.bind Location.name

/-! ## Causes -/

/-- A list of names, cut after five. -/
def preview (names : List String) : String :=
  ", ".intercalate (if names.length ≤ 5 then names else names.take 5 ++ ["..."])

def missingRequiredParameter (plugin parameter : String) : Diagnostic :=
  (({ code := missingRequiredParameterCode
      message := s!"'{plugin}' requires parameter '{parameter}'"
      suggestion := some s!"Add '{parameter}' to the '{plugin}' description" } : Diagnostic).inPlugin
    plugin).forParameter parameter

def unknownName (category name : String) (known : List String) : Diagnostic :=
  let names := preview known
  let suggestion :=
    if known.isEmpty then s!"Nothing has been named in '{category}' yet; check the compile order"
    else s!"Known names: {names}"
  (({ code := unknownNameCode
      message := s!"No object named '{name}' in category '{category}'"
      suggestion := some suggestion } : Diagnostic).inCategory category).forName name

def unknownType (category tag : String) (known : List String) : Diagnostic :=
  let tags := preview known
  (({ code := unknownTypeCode
      message := s!"Unknown type '{tag}' in category '{category}'"
      suggestion := some s!"Known types: {tags}" } : Diagnostic).inCategory category).inPlugin tag

def duplicateName (category name : String) : Diagnostic :=
  (({ code := duplicateNameCode
      message := s!"Name '{name}' is already used in category '{category}'"
      suggestion := some "Names must be unique within a category" } : Diagnostic).inCategory category).forName name

def duplicateRegistration (what name : String) : Diagnostic where
  code := duplicateRegistrationCode
  message := s!"The {what} '{name}' has been reserved by another plugin"

def unresolvedCompiler (category : String) : Diagnostic :=
  ({ code := unresolvedCompilerCode
     message := s!"No {category} compiler registered"
     suggestion := some "Load the plugin that provides this category" } : Diagnostic).inCategory category

def invalidInput (details : String) : Diagnostic where
  code := invalidInputCode
  message := s!"Invalid input: {details}"

def invalidPlugin (plugin details : String) : Diagnostic :=
  ({ code := invalidPluginCode, message := s!"Invalid plugin '{plugin}': {details}" } : Diagnostic).inPlugin plugin

def unknownConstructor (path : String) : Diagnostic where
  code := unknownConstructorCode
  message := s!"No constructor registered as '{path}'"
  suggestion := some "Register the constructor before creating builders that use it"

def unknownCategory (category : String) (order : List String) : Diagnostic :=
  let listed := ", ".intercalate order
  ({ code := unknownCategoryCode
     message := s!"Category '{category}' is not in the compile order"
     suggestion := some s!"Compile order: {listed}" } : Diagnostic).inCategory category

def ofLoadError (e : LoadError) : Diagnostic where
  code := loadErrorCode
  message := e.message

def ofBuildError (plugin : String) (e : BuildError) : Diagnostic :=
  let why := e.message
  ({ code := buildErrorCode, message := s!"Cannot build '{plugin}': {why}" } : Diagnostic).inPlugin plugin

/-- A diagnostic on one line: code, message and suggestion. -/
def display (d : Diagnostic) : String :=
  let head := s!"[{d.code}] {d.message}"
  match d.suggestion with
  | some suggestion => s!"{head} (suggestion: {suggestion})"
  | none => head

end Diagnostic
end Blueprint
