import LiveProbe.Config.Agent

/-!
# Application code

Which files belong to the observed application, and how their paths are
shortened.
-/

namespace LiveProbe

/-- Rules by the beginnings of paths. -/
structure InApp where
  included : List String
  excluded : List String
  appRoot : Option String
  deriving DecidableEq, Repr

namespace InApp

/-- The rules of an agent's settings. -/
def ofConfig (c : AgentConfig) : InApp := ⟨c.inAppInclude, c.inAppExclude, c.appRoot⟩

/-- The path begins with a text. -/
def beginsWith (lead path : String) : Bool := lead.toList.isPrefixOf path.toList

/-- The file belongs to the application. Exclusion wins over inclusion, inclusion
over the root, and without any rule everything belongs to it. -/
def isAppFrame (rules : InApp) (path : String) : Bool :=
  if rules.excluded.any (beginsWith · path) then false
  else if rules.included.any (beginsWith · path) then true
  else
    match rules.appRoot with
    | some root => beginsWith root path
    | none => rules.included.isEmpty

/-- The path without the root and the slashes behind it. -/
def shortPath (rules : InApp) (path : String) : String :=
  match rules.appRoot with
  | some root =>
    if beginsWith root path then
      String.ofList ((path.toList.drop root.toList.length).dropWhile (· == '/'))
    else path
  | none => path

end InApp
end LiveProbe
