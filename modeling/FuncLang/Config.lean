/-! # Settings

The settings of the front end: how many diagnostics are kept, and under which name the source is
shown in them.
-/

namespace FuncLang

/-- The settings of the front end. -/
structure Config where
  /-- How many diagnostics are kept. -/
  limit : Nat
  /-- The name under which the source is shown. -/
  filename : String
deriving DecidableEq, Repr

/-- The settings where nothing else is asked for. -/
def Config.standard : Config := ⟨256, "<input>"⟩

instance : Inhabited Config := ⟨Config.standard⟩

end FuncLang
