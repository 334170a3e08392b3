-- SUMMARY: Settings from the environment of the process.
import SegregatedFit.Config

/-!
# Settings from the environment

The only place of the library that looks at its surroundings.
-/
namespace SegregatedFit

/-- The settings that the variables of the environment give. -/
def Config.ofEnvironment : IO Config := do
  let values ← Config.names.mapM fun name => return (name, ← IO.getEnv name)
  return Config.ofLookup fun name => (values.lookup name).join

end SegregatedFit
