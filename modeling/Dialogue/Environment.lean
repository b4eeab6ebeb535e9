namespace Dialogue

abbrev Environment := String → Option String

namespace Environment

def ofList (pairs : List (String × String)) : Environment := fun name => pairs.lookup name

def default (environment : Environment) (name value : String) : Environment := fun other =>
  if other = name then some ((environment name).getD value) else environment other

end Environment

end Dialogue
