import GridRelief.Country

/-!
# Networks

The optimiser looks at a grid through a few questions and changes it through three setters: the
status of a switch, the tap of a phase shifter, the set-point of a line or an injection. A network
is a value: a setter answers with the changed network, or with none when it refuses.

## Main definitions

* `Network N K`: the questions and setters of networks of type `N` with numbers of type `K`.
-/

namespace GridRelief

/-- The questions and setters of a network. -/
class Network (N : Type) (K : outParam Type) where
  /-- Whether a switchable element is connected, if the network has it. -/
  isConnected : N → String → Option Bool
  /-- Connect or disconnect an element. -/
  setConnected? : N → String → Bool → Option N
  /-- The tap of a phase shifter, if the network has it. -/
  tap : N → String → Option Int
  /-- Move a phase shifter to a tap. -/
  setTap? : N → String → Int → Option N
  /-- The set-point of a line or an injection, if the network has it. -/
  setpoint : N → String → Option K
  /-- Change a set-point. -/
  setSetpoint? : N → String → K → Option N
  /-- The countries at the ends of an element, `none` for an end whose place is unknown. -/
  countries : N → String → List (Option Country)

end GridRelief
