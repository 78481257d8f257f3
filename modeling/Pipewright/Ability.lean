import Pipewright.RunError

/-!
# Abilities

Named operations that a pipeline can call. A run knows nothing of them but their answers, which may depend
on the calls made before: a world that changes as it is called. An ability answers at once; a service may let its
caller wait, and meanwhile other parts of the run go on.
-/
namespace Pipewright

/-- A call of an ability. -/
structure Call where
  name : String
  input : Value

/-- What an ability answers to an input after the calls made before, oldest first. -/
abbrev Ability := List Call → Value → Except AbilityError Value

/-- The abilities that can be called, by name. -/
structure Abilities where
  ability? : String → Option Ability

def Abilities.none : Abilities := ⟨fun _ => .none⟩

/-- What a service says to a call, and each time that it is asked again: the answer, or that it is not ready yet. Asked
again it knows the calls made in the meantime. -/
inductive Reply where
  | answer (result : Except AbilityError Value)
  | pending (later : List Call → Reply)

/-- The answer in the end, if nothing else is called meanwhile. -/
def Reply.settled (calls : List Call) : Reply → Except AbilityError Value
  | .answer result => result
  | .pending later => (later calls).settled calls

/-- What a service says to an input after the calls made before, oldest first. -/
abbrev Service := List Call → Value → Reply

/-- An ability is a service that keeps nobody waiting. -/
def Ability.service (ability : Ability) : Service := fun before input => .answer (ability before input)

/-- The services that can be called, by name. -/
structure Services where
  service? : String → Option Service

/-- Abilities as services. -/
def Abilities.services (abilities : Abilities) : Services :=
  ⟨fun name => (abilities.ability? name).map Ability.service⟩

/-- What services answer in the end if nothing else is called meanwhile. By then the call itself has been made. -/
def Services.settled (services : Services) : Abilities where
  ability? name := (services.service? name).map fun service before input =>
    (service before input).settled (before ++ [⟨name, input⟩])

end Pipewright
